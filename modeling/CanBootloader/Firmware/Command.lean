/-
  command.c and error.h: the command handlers and their dispatch.

  A handler gets the argument reader, the output writer and the configuration, and hands the
  last two back. The static `status` of command.c and the uninitialised locals are part of its
  invocation. Flash memory and the reset controller are reached by calls (`Code`).
-/
import CanBootloader.Firmware.Config

namespace CanBootloader

open Lib

/-! ## Codes -/

def errorUnspecified : UInt8 := 0
def success : UInt8 := 1
def errorCorruptDatagram : UInt8 := 2
def errorDatagramTimeout : UInt8 := 6
def errInvalidCommand : Int := 3
def errCommandNotFound : Int := 4
def errInvalidCommandSetVersion : Int := 5

def flashEraseSuccess : UInt64 := 1
def flashEraseErrorBeforeApp : UInt64 := 10
def flashEraseErrorAfterApp : UInt64 := 11
def flashEraseErrorDeviceClassMismatch : UInt64 := 12
def flashEraseFailed : UInt64 := 13

def flashWriteSuccess : Bool := true
def flashWriteErrorBeforeApp : UInt64 := 20
def flashWriteErrorAfterApp : UInt64 := 21
def flashWriteErrorDeviceClassMismatch : UInt64 := 22
def flashWriteErrorUnknownSize : UInt64 := 23
def flashWriteErrorNotErased : UInt64 := 24

def crcErrorAddressUnspecified : UInt64 := 30
def crcErrorLengthUnspecified : UInt64 := 31
def crcErrorIllegalAddress : UInt64 := 32

def bootArgStartBootloader : UInt8 := 0
def bootArgStartBootloaderNoTimeout : UInt8 := 1
def bootArgStartApplication : UInt8 := 2

def commandSetVersion : Int := 3

/-! ## Handlers -/

/-- What a callback is called with. -/
structure Invocation where
  argc : UInt32
  args : CmpReader
  out : CmpWriter
  config : BootloaderConfig
  status : UInt8
  locals : Locals

/-- What a callback leaves in the objects it was given. -/
structure Reply where
  out : CmpWriter
  config : BootloaderConfig

abbrev Callback := Invocation → Code Reply

/-- The callback returns with this output. -/
def Invocation.reply (i : Invocation) (out : CmpWriter) : Reply := ⟨out, i.config⟩

variable (fw : Firmware)

/-- The body of the erase loop: erase, then look whether the area is erased. -/
def eraseAndCheck (address size : UInt32) : Code Bool := do
  flashWriterUnlock
  flashWriterPageErase address
  flashWriterLock
  let m ← readMemory
  return flashPageIsErased m address size

/-- `do .. while (!flash_page_is_erased(address, size) && retry-- > 0)`, and `retry` after it:
    the last decrement wraps to 255. -/
def eraseLoop (address size : UInt32) : Nat → Code UInt8
  | 0 => do
      let erased ← eraseAndCheck address size
      return if erased then 0 else 255
  | retry + 1 => do
      let erased ← eraseAndCheck address size
      if erased then return UInt8.ofNat (retry + 1) else eraseLoop address size retry

def commandEraseFlashPage : Callback := fun i => do
  let a := fw.cmp.readUinteger i.args 0
  let address := a.value.toUInt32
  if address < fw.app then
    return i.reply (fw.cmp.writeUint i.out flashEraseErrorBeforeApp)
  if address ≥ fw.app + fw.appSize then
    return i.reply (fw.cmp.writeUint i.out flashEraseErrorAfterApp)
  -- the result is not looked at
  let s := fw.cmp.readStr a.reader i.locals.deviceClass 64
  if !strcmpEq s.data (cString i.config.deviceClass) then
    return i.reply (fw.cmp.writeUint i.out flashEraseErrorDeviceClassMismatch)
  let retry ← eraseLoop address s.size fw.flashEraseRetries.toNat
  let out := if retry = 0 then fw.cmp.writeUint i.out flashEraseFailed else i.out
  return i.reply (fw.cmp.writeUint out flashEraseSuccess)

def commandWriteFlash : Callback := fun i => do
  let a := fw.cmp.readUinteger i.args 0
  let address := a.value.toUInt32
  if address < fw.app then
    return i.reply (fw.cmp.writeUint i.out flashWriteErrorBeforeApp)
  if address ≥ fw.app + fw.appSize then
    return i.reply (fw.cmp.writeUint i.out flashWriteErrorAfterApp)
  let s := fw.cmp.readStr a.reader i.locals.deviceClass 64
  if !strcmpEq s.data (cString i.config.deviceClass) then
    return i.reply (fw.cmp.writeUint i.out flashWriteErrorDeviceClassMismatch)
  let b := fw.cmp.readBinSize s.reader s.size
  if !b.ok then
    return i.reply (fw.cmp.writeUint i.out flashWriteErrorUnknownSize)
  -- `src` points into the receive buffer, where the binary starts
  let src := b.reader.buf.slice b.reader.pos b.value.toNat
  let m ← readMemory
  if !flashPageIsErased m address b.value then
    return i.reply (fw.cmp.writeUint i.out flashWriteErrorNotErased)
  flashWriterUnlock
  flashWriterPageWrite address src
  flashWriterLock
  return i.reply (fw.cmp.writeBool i.out flashWriteSuccess)

/-- The two commands that change flash memory. -/
inductive FlashCommand where
  | erase
  | write

def FlashCommand.callback : FlashCommand → Callback
  | .erase => commandEraseFlashPage fw
  | .write => commandWriteFlash fw

def commandReadFlash : Callback := fun i => do
  let a := fw.cmp.readUinteger i.args i.locals.tmp
  let size := fw.cmp.readU32 a.reader i.locals.size
  let m ← readMemory
  return i.reply (fw.cmp.writeBin i.out (m.read a.value.toUInt32 size.value.toNat))

/-- `command_jump_to_application` uses the configuration only, and does not return. -/
def jumpToApplication {α : Type} (config : BootloaderConfig) : Code α := do
  if !fw.commandJumpDisableCrcChecking then
    let m ← readMemory
    if fw.crc32 0 (m.read fw.app config.applicationSize.toNat) = config.applicationCrc then
      rebootSystem bootArgStartApplication
    else
      rebootSystem bootArgStartBootloaderNoTimeout
  else
    rebootSystem bootArgStartApplication

def commandJumpToApplication : Callback := fun i => jumpToApplication fw i.config

def commandCrcRegion : Callback := fun i => do
  let a := fw.cmp.readUinteger i.args i.locals.tmp
  if !a.ok then
    return i.reply (fw.cmp.writeUint i.out crcErrorAddressUnspecified)
  let address := a.value.toUInt32
  let size := fw.cmp.readUint a.reader i.locals.size
  if !size.ok then
    return i.reply (fw.cmp.writeUint i.out crcErrorLengthUnspecified)
  let address2 := address + size.value
  if !fw.addressBoundaryCheckDisabled &&
      (address < fw.flashBegin || address ≥ fw.flashEnd ||
        address2 < fw.flashBegin || address2 ≥ fw.flashEnd) then
    return i.reply (fw.cmp.writeUint i.out crcErrorIllegalAddress)
  let m ← readMemory
  let crc := fw.crc32 0 (m.read address size.value.toNat)
  return i.reply (fw.cmp.writeUint i.out crc.toUInt64)

def commandConfigUpdate : Callback := fun i => do
  let config := configUpdateFromSerialized fw i.locals i.config i.args
  return ⟨fw.cmp.writeBool i.out true, config⟩

def commandPing : Callback := fun i => return i.reply (fw.cmp.writeBool i.out true)

def flashWriteAndVerify (addr : UInt32) (data : List UInt8) : Code Bool := do
  flashWriterUnlock
  flashWriterPageErase addr
  flashWriterPageWrite addr data
  flashWriterLock
  let m ← readMemory
  return configIsValid fw m addr data.length

/-- The page buffer of `command_config_write_to_flash`: zeros, then `config_write`. -/
def configPageBuffer (config : BootloaderConfig) : List UInt8 :=
  (configWrite fw (fun _ => 0) config fw.configPageSize).slice 0 fw.configPageSize

/-- The update of both pages: the page written first is one that is not the only valid one. -/
def saveConfigPages (page : List UInt8) : Code Bool := do
  let m ← readMemory
  if configIsValid fw m fw.config2 fw.configPageSize then
    if ← flashWriteAndVerify fw fw.config1 page then
      flashWriteAndVerify fw fw.config2 page
    else return false
  else if configIsValid fw m fw.config1 fw.configPageSize then
    if ← flashWriteAndVerify fw fw.config2 page then
      flashWriteAndVerify fw fw.config1 page
    else return false
  else
    let first ← flashWriteAndVerify fw fw.config1 page
    let second ← flashWriteAndVerify fw fw.config2 page
    return first && second

def commandConfigWriteToFlash : Callback := fun i => do
  let config := { i.config with updateCount := i.config.updateCount + 1 }
  let success ← saveConfigPages fw (configPageBuffer fw config)
  return ⟨fw.cmp.writeBool i.out success, config⟩

def commandConfigRead : Callback := fun i =>
  return i.reply (configWriteMessagepack fw i.out i.config)

def commandGetStatus : Callback := fun i => return i.reply (fw.cmp.writeU8 i.out i.status)

/-! ## Arguments of the flash commands -/

/-- The address argument lies in the application region. -/
def AddressInApp (args : CmpReader) : Prop :=
  let address := (fw.cmp.readUinteger args 0).value.toUInt32
  fw.app ≤ address ∧ address < fw.app + fw.appSize

/-- What `cmp_read_str` makes of the second argument. -/
def readDeviceClass (i : Invocation) : StrResult :=
  fw.cmp.readStr (fw.cmp.readUinteger i.args 0).reader i.locals.deviceClass 64

/-- The address argument. -/
def writeAddress (i : Invocation) : UInt64 := (fw.cmp.readUinteger i.args 0).value

/-- The header of the binary. -/
def readDataSize (i : Invocation) : ReadResult UInt32 :=
  fw.cmp.readBinSize (readDeviceClass fw i).reader (readDeviceClass fw i).size

/-- What `src` points to. -/
def writeSource (i : Invocation) : List UInt8 :=
  (readDataSize fw i).reader.buf.slice (readDataSize fw i).reader.pos
    (readDataSize fw i).value.toNat

/-- The arguments of an erase command pass its checks. -/
def EraseArgumentsOk (i : Invocation) : Prop :=
  AddressInApp fw i.args ∧
    strcmpEq (readDeviceClass fw i).data (cString i.config.deviceClass) = true

/-- The arguments of a write command pass its checks. -/
def WriteArgumentsOk (i : Invocation) : Prop :=
  AddressInApp fw i.args ∧
    strcmpEq (readDeviceClass fw i).data (cString i.config.deviceClass) = true ∧
    (readDataSize fw i).ok = true

/-- What the erase command does with its arguments: an error, or what is behind the checks. -/
theorem commandEraseFlashPage_cases (i : Invocation) :
    (¬ EraseArgumentsOk fw i ∧ ∃ code : UInt64,
      commandEraseFlashPage fw i = Prog.ret (i.reply (fw.cmp.writeUint i.out code))) ∨
    EraseArgumentsOk fw i ∧ commandEraseFlashPage fw i = (do
      let retry ← eraseLoop (fw.cmp.readUinteger i.args 0).value.toUInt32
        (readDeviceClass fw i).size fw.flashEraseRetries.toNat
      let out := if retry = 0 then fw.cmp.writeUint i.out flashEraseFailed else i.out
      return i.reply (fw.cmp.writeUint out flashEraseSuccess)) := by
  unfold commandEraseFlashPage
  simp only
  split_ifs with hbefore hafter hclass
  · exact .inl ⟨fun h => UInt32.not_lt.mpr h.1.1 hbefore, _, rfl⟩
  · exact .inl ⟨fun h => UInt32.not_lt.mpr hafter h.1.2, _, rfl⟩
  · refine .inl ⟨fun h => ?_, _, rfl⟩
    have hmatch := h.2
    simp only [readDeviceClass] at hmatch
    simp [hmatch] at hclass
  · refine .inr ⟨⟨⟨?_, ?_⟩, ?_⟩, rfl⟩
    · exact UInt32.not_lt.mp hbefore
    · exact UInt32.not_le.mp hafter
    · simpa [readDeviceClass] using hclass

/-- What the write command does with its arguments. -/
theorem commandWriteFlash_cases (i : Invocation) :
    (¬ WriteArgumentsOk fw i ∧ ∃ code : UInt64, code.toNat < 128 ∧
      commandWriteFlash fw i = Prog.ret (i.reply (fw.cmp.writeUint i.out code))) ∨
    WriteArgumentsOk fw i ∧ commandWriteFlash fw i = (do
      let m ← readMemory
      if !flashPageIsErased m (writeAddress fw i).toUInt32 (readDataSize fw i).value then
        return i.reply (fw.cmp.writeUint i.out flashWriteErrorNotErased)
      flashWriterUnlock
      flashWriterPageWrite (writeAddress fw i).toUInt32 (writeSource fw i)
      flashWriterLock
      return i.reply (fw.cmp.writeBool i.out flashWriteSuccess)) := by
  unfold commandWriteFlash
  simp only
  split_ifs with hbefore hafter hclass hsize
  · exact .inl ⟨fun h => UInt32.not_lt.mpr h.1.1 hbefore, _, by decide, rfl⟩
  · exact .inl ⟨fun h => UInt32.not_lt.mpr hafter h.1.2, _, by decide, rfl⟩
  · refine .inl ⟨fun h => ?_, _, by decide, rfl⟩
    have hmatch := h.2.1
    simp only [readDeviceClass] at hmatch
    simp [hmatch] at hclass
  · refine .inl ⟨fun h => ?_, _, by decide, rfl⟩
    have hok := h.2.2
    simp only [readDataSize, readDeviceClass] at hok
    simp [hok] at hsize
  · refine .inr ⟨⟨⟨?_, ?_⟩, ?_, ?_⟩, rfl⟩
    · exact UInt32.not_lt.mp hbefore
    · exact UInt32.not_le.mp hafter
    · simpa [readDeviceClass] using hclass
    · simpa [readDataSize, readDeviceClass] using hsize

/-! ## Dispatch -/

/-- `command_t`. -/
structure Command where
  index : UInt8
  callback : Callback

def commands : List Command :=
  [⟨1, commandJumpToApplication fw⟩,
   ⟨2, commandCrcRegion fw⟩,
   ⟨3, commandEraseFlashPage fw⟩,
   ⟨4, commandWriteFlash fw⟩,
   ⟨5, commandPing fw⟩,
   ⟨6, commandReadFlash fw⟩,
   ⟨7, commandConfigUpdate fw⟩,
   ⟨8, commandConfigWriteToFlash fw⟩,
   ⟨9, commandConfigRead fw⟩,
   ⟨10, commandGetStatus fw⟩]

def getCommandByIndex (index : UInt8) : Option Command :=
  (commands fw).find? fun c => c.index == index

/-- What `execute_datagram_commands` returns and leaves behind. -/
structure Execution where
  result : Int
  outBuf : Store
  config : BootloaderConfig

def executeDatagramCommands (data : Store) (dataLen : Nat) (outBuf : Store) (outLen : Nat)
    (config : BootloaderConfig) (status : UInt8) (l : Locals) : Code Execution := do
  let commandVersion := fw.cmp.readInt (.init data dataLen) l.commandVersion
  let out := CmpWriter.init outBuf outLen
  if commandVersion.value ≠ commandSetVersion then
    return ⟨-errInvalidCommandSetVersion, outBuf, config⟩
  let commandIndex := fw.cmp.readInt commandVersion.reader 0
  if !commandIndex.ok then
    return ⟨-errInvalidCommand, outBuf, config⟩
  let argc := fw.cmp.readArray commandIndex.reader 0
  -- the index is passed as a `uint8_t`
  match getCommandByIndex fw (UInt8.ofInt commandIndex.value) with
  | some cmd =>
      let r ← cmd.callback ⟨if argc.ok then argc.value else 0, argc.reader, out, config, status, l⟩
      return ⟨r.out.pos, r.out.buf, r.config⟩
  | none => return ⟨-errCommandNotFound, outBuf, config⟩

/-- What the dispatcher does: it fails without a call, leaving buffer and configuration, or runs
    one command of the table. -/
theorem executeDatagramCommands_cases (data : Store) (dataLen : Nat) (outBuf : Store)
    (outLen : Nat) (config : BootloaderConfig) (status : UInt8) (l : Locals) :
    (∃ c, (c = errInvalidCommandSetVersion ∨ c = errInvalidCommand ∨ c = errCommandNotFound) ∧
      executeDatagramCommands fw data dataLen outBuf outLen config status l =
        Prog.ret ⟨-c, outBuf, config⟩) ∨
    ∃ cmd ∈ commands fw, ∃ i : Invocation, i.config = config ∧ i.out = .init outBuf outLen ∧
      executeDatagramCommands fw data dataLen outBuf outLen config status l =
        (cmd.callback i >>= fun r => Prog.ret ⟨r.out.pos, r.out.buf, r.config⟩) := by
  unfold executeDatagramCommands
  simp only
  split
  · exact .inl ⟨_, .inl rfl, rfl⟩
  · split
    · exact .inl ⟨_, .inr (.inl rfl), rfl⟩
    · split
      · next cmd hcmd =>
          exact .inr ⟨cmd, List.mem_of_find?_eq_some hcmd, _, rfl, rfl, rfl⟩
      · exact .inl ⟨_, .inr (.inr rfl), rfl⟩

/-! ## A new board -/

/-- The configuration of a new board with ID 1. -/
def blankConfig : BootloaderConfig where
  ID := 1
  boardName := Store.ofList nucleoFirmware.platformDefaultName
  deviceClass := Store.ofList nucleoFirmware.platformDeviceClass
  applicationCrc := 0xDEADC0DE
  applicationSize := 0
  updateCount := 1
  bootloaderCommit := nucleoFirmware.bootloaderCommit
  bootloaderVersion := nucleoFirmware.bootloaderVersion

def blankLocals : Locals where
  deviceClass := fun _ => 0
  key := fun _ => 0
  tmp := 0
  size := 0
  commandVersion := 0
  config := blankConfig

/-- A command without arguments on a board with this configuration. -/
def blankInvocation (config : BootloaderConfig) : Invocation where
  argc := 0
  args := .init (fun _ => 0) 0
  out := .init (fun _ => 0) nucleoFirmware.outputBufferSize
  config
  status := 0
  locals := blankLocals

end CanBootloader
