/-
  client/can/frame.py and client/can/datagram.py: CAN frames, and the client's encoder,
  decoder and frame splitter for datagrams.

  A byte string is a `List UInt8`; `bytes(..)` and `struct.pack` raise when a number does
  not fit its field, which `encodeDatagram` reports as `none`. In `decode_datagram` the
  exceptions raised inside its `try` block stay exceptions here (`decodeTry`), and
  `decodeDatagram` is the `except` clauses. An `IndexError` (empty input) is not caught.
-/
import CanBootloader.Protocol

namespace CanBootloader

open Lib

/-! ## Frames -/

/-- `can.Frame`. -/
structure Frame where
  id : Nat
  data : List UInt8
  extended : Bool
  transmissionRequest : Bool
  dataLength : Nat
  deriving DecidableEq, Repr

/-- `Frame.__init__`. -/
def Frame.init (id : Nat := 0) (data : Option (List UInt8) := none) (extended : Bool := false)
    (transmissionRequest : Bool := false) (dataLength : Option Nat := none) : Frame :=
  -- no data: an empty frame; more than 8 bytes: the first 8
  let data := data.getD []
  let data := if data.length > 8 then data.take 8 else data
  { id, data, extended, transmissionRequest, dataLength := dataLength.getD data.length }

/-! ## Encoder -/

def datagramVersion : UInt8 := 1

def startOfDatagramMask : Nat := 1 <<< 7

/-- `encode_datagram`; `none` when `bytes` or `struct.pack` raises. -/
def encodeDatagram (data destinations : List UInt8) : Option (List UInt8) :=
  if destinations.length > 255 ∨ data.length ≥ 2 ^ 32 then none
  else
    let version := [datagramVersion]
    let addresses := UInt8.ofNat destinations.length :: destinations
    let dt := be32 (UInt32.ofNat data.length) ++ data
    let crc := be32 (Zlib.crc32 (addresses ++ dt))
    some (version ++ crc ++ addresses ++ dt)

/-- The loop of `datagram_to_frames`, with the start bit of the next frame. -/
def datagramToFramesFrom (startBit : Nat) (datagram : List UInt8) (source : Nat) : List Frame :=
  if 8 < datagram.length then
    Frame.init (startBit + source) (some (datagram.take 8)) ::
      datagramToFramesFrom 0 (datagram.drop 8) source
  else [Frame.init (startBit + source) (some datagram)]
termination_by datagram.length
decreasing_by
  rw [List.length_drop]
  omega

/-- `datagram_to_frames`. -/
def datagramToFrames (datagram : List UInt8) (source : Nat) : List Frame :=
  datagramToFramesFrom startOfDatagramMask datagram source

/-! ## Decoder -/

/-- The exceptions of `decode_datagram`. -/
inductive PyError where
  | indexError
  | structError
  | versionMismatchError
  | crcMismatchError
  deriving DecidableEq, Repr

/-- `struct.unpack('>I', bs)`. -/
def unpackWord (bs : List UInt8) : Except PyError UInt32 :=
  if bs.length = 4 then .ok (ofBE bs) else .error .structError

/-- `struct.unpack('>IB', bs)`. -/
def unpackHeader (bs : List UInt8) : Except PyError (UInt32 × UInt8) :=
  if bs.length = 5 then .ok (ofBE (bs.take 4), bs.getD 4 0) else .error .structError

/-- `struct.unpack('{n}s', bs)`. -/
def unpackBytes (n : Nat) (bs : List UInt8) : Except PyError (List UInt8) :=
  if bs.length = n then .ok bs else .error .structError

/-- `struct.pack('>I', n)`. -/
def packWord (n : Nat) : Except PyError (List UInt8) :=
  if n < 2 ^ 32 then .ok (be32 (UInt32.ofNat n)) else .error .structError

/-- The `try` block of `decode_datagram`. -/
def decodeTry (data : List UInt8) : Except PyError (Option (List UInt8 × List UInt8)) :=
  match data with
  | [] => .error .indexError
  | version :: data => do
      if version ≠ datagramVersion then .error .versionMismatchError
      let header := data.take 5
      let data := data.drop 5
      let (crc, dstLen) ← unpackHeader header
      -- decodes the destination list
      let destinations := data.take dstLen.toNat
      let data := data.drop dstLen.toNat
      let destinations ← unpackBytes dstLen.toNat destinations
      let dataLen := data.take 4
      let data := data.drop 4
      let dataLen ← unpackWord dataLen
      -- not all data received yet
      if data.length < dataLen.toNat then return none
      let addresses := UInt8.ofNat destinations.length :: destinations
      let dt := (← packWord data.length) ++ data
      if Zlib.crc32 (addresses ++ dt) ≠ crc then .error .crcMismatchError
      return some (data, destinations)

/-- `decode_datagram`: data and destinations, or `none` when the datagram is incomplete or
    invalid. -/
def decodeDatagram (data : List UInt8) : Except PyError (Option (List UInt8 × List UInt8)) :=
  match decodeTry data with
  | .error .structError => .ok none
  | .error .versionMismatchError => .ok none
  | .error .crcMismatchError => .ok none
  | r => r

end CanBootloader
