/-
  commands.py: the encoding of commands.

  `Packer.pack` of the `msgpack` package writes the shortest form of every object
  (`Lib.Msgpack`). A Python string is its UTF-8 bytes.
-/
import CanBootloader.Lib.Msgpack

namespace CanBootloader

open Lib

/-- The arguments of the commands. -/
inductive Argument where
  | int (n : Nat)
  | str (s : List UInt8)
  | bytes (b : List UInt8)

/-- `Packer(use_bin_type=True).pack` of one argument. -/
def Argument.pack : Argument → List UInt8
  | int n => Msgpack.uint n
  | str s => Msgpack.strHeader s.length ++ s
  | bytes b => Msgpack.binHeader b.length ++ b

namespace CommandType

def jumpToMain : Nat := 1
def crcRegion : Nat := 2
def erase : Nat := 3
def write : Nat := 4
def ping : Nat := 5
def read : Nat := 6
def updateConfig : Nat := 7
def saveConfig : Nat := 8
def readConfig : Nat := 9
def getStatus : Nat := 10

end CommandType

/-- `COMMAND_SET_VERSION` of the client. -/
def clientCommandSetVersion : Nat := 3

def encodeCommand (commandCode : Nat) (arguments : List Argument) : List UInt8 :=
  Msgpack.uint clientCommandSetVersion ++ (Msgpack.uint commandCode ++
    (Msgpack.arrayHeader arguments.length ++ arguments.flatMap Argument.pack))

def encodeCrcRegion (address length : Nat) : List UInt8 :=
  encodeCommand CommandType.crcRegion [.int address, .int length]

def encodeEraseFlashPage (address : Nat) (deviceClass : List UInt8) : List UInt8 :=
  encodeCommand CommandType.erase [.int address, .str deviceClass]

def encodeWriteFlash (data : List UInt8) (address : Nat) (deviceClass : List UInt8) :
    List UInt8 :=
  encodeCommand CommandType.write [.int address, .str deviceClass, .bytes data]

/-- `encode_read_flash`; `none` when a name is not found. The body asks for `address`, which is
    neither a parameter nor a global of commands.py: a NameError. -/
def encodeReadFlash (aderess length : Nat) : Option (List UInt8) := do
  let parameters := [("aderess", aderess), ("length", length)]
  let address ← parameters.lookup "address"
  let length ← parameters.lookup "length"
  return encodeCommand CommandType.read [.int address, .int length]

def encodePing : List UInt8 := encodeCommand CommandType.ping []

/-- `pack` of a dictionary with string keys, in the order of its items. -/
def packDict (items : List (List UInt8 × Argument)) : List UInt8 :=
  Msgpack.mapHeader items.length ++ items.flatMap fun (key, value) =>
    (Argument.str key).pack ++ value.pack

/-- The one argument of this command is a dictionary. -/
def encodeUpdateConfig (data : List (List UInt8 × Argument)) : List UInt8 :=
  Msgpack.uint clientCommandSetVersion ++ (Msgpack.uint CommandType.updateConfig ++
    (Msgpack.arrayHeader 1 ++ packDict data))

def encodeSaveConfig : List UInt8 := encodeCommand CommandType.saveConfig []

def encodeJumpToMain : List UInt8 := encodeCommand CommandType.jumpToMain []

def encodeReadConfig : List UInt8 := encodeCommand CommandType.readConfig []

def encodeGetStatus : List UInt8 := encodeCommand CommandType.getStatus []

example : encodeCrcRegion 0x08010000 16 = [3, 2, 0x92, 0xce, 8, 1, 0, 0, 16] := by decide

end CanBootloader
