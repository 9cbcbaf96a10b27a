/-
  What the firmware makes of the client's commands.

  `executeDatagramCommands_encoded`: on the bytes of a command the dispatcher calls the handler
  of its code, with a reader at the first argument. The reads of the handlers then give back the
  arguments one by one (`readUinteger_int` and its neighbours), so that a handler does with the
  bytes what is written down for the arguments (`commandWriteFlash_encoded` and its neighbours).

  * `commands_agree`: this holds for the commands that flash a board.
  * `readFlash_agrees_never`: it does not for reading flash memory. The client's function raises,
    and the handler reads the length with a function for one width only.
-/
import CanBootloader.Client.Commands
import CanBootloader.Firmware.DeviceClass

namespace CanBootloader

open Lib

/-! ## Dispatch -/

/-- The arguments of a call of `execute_datagram_commands`, and the leftovers on its stack. -/
structure DatagramCall where
  data : Store
  dataLen : Nat
  outBuf : Store
  outLen : Nat
  config : BootloaderConfig
  status : UInt8
  locals : Locals

namespace DatagramCall

variable (fw : Firmware) (x : DatagramCall)

def code : Code Execution :=
  executeDatagramCommands fw x.data x.dataLen x.outBuf x.outLen x.config x.status x.locals

/-- The datagram holds these bytes. -/
def Carries (bytes : List UInt8) : Prop := x.data.slice 0 x.dataLen = bytes

/-- The handler is called, with what the dispatcher hands on. -/
structure Calls (callback : Callback) (i : Invocation) : Prop where
  code_eq : x.code fw = callback i >>= fun r => Prog.ret ⟨r.out.pos, r.out.buf, r.config⟩
  out : i.out = .init x.outBuf x.outLen
  config : i.config = x.config
  locals : i.locals = x.locals

end DatagramCall

variable {fw : Firmware} {x : DatagramCall}

/-- Bytes with the shape of a command: its handler is called, with a reader at the arguments. -/
theorem executeDatagramCommands_carried (hread : ReadLaw fw.cmp) {commandCode argc : Nat}
    {args : List UInt8}
    (hx : x.Carries (Msgpack.uint clientCommandSetVersion ++ (Msgpack.uint commandCode ++
      (Msgpack.arrayHeader argc ++ args))))
    (hcode : commandCode < 2 ^ 31) (hargs : argc < 2 ^ 32) {cmd : Command}
    (hcmd : getCommandByIndex fw (UInt8.ofInt commandCode) = some cmd) :
    ∃ i, x.Calls fw cmd.callback i ∧ i.args.rest = args := by
  have hr : (CmpReader.init x.data x.dataLen).rest =
      Msgpack.uint clientCommandSetVersion ++ (Msgpack.uint commandCode ++
        (Msgpack.arrayHeader argc ++ args)) := hx
  have hversion := hread.readInt _ x.locals.commandVersion 3 _
    (by rw [hr]; exact Msgpack.int32?_uint (by decide) _)
  have hr1 := CmpReader.rest_seek hr
  have hindex := hread.readInt _ 0 commandCode _
    (by rw [hr1]; exact Msgpack.int32?_uint hcode _)
  have hr2 := CmpReader.rest_seek hr1
  have hargc := hread.readArray _ 0 argc _
    (by rw [hr2]; exact Msgpack.arrayLen?_arrayHeader hargs _)
  have hr3 := CmpReader.rest_seek hr2
  refine ⟨⟨UInt32.ofNat argc, _, .init x.outBuf x.outLen, x.config, x.status, x.locals⟩,
    ⟨?_, rfl, rfl, rfl⟩, hr3⟩
  unfold DatagramCall.code executeDatagramCommands
  rw [hversion]
  simp only [hindex, hargc, id]
  rw [if_neg (by decide), hcmd]
  rfl

/-- A command of the client reaches the handler of its code, which finds the arguments. -/
theorem executeDatagramCommands_encoded (hread : ReadLaw fw.cmp) {commandCode : Nat}
    {arguments : List Argument} (hx : x.Carries (encodeCommand commandCode arguments))
    (hcode : commandCode < 2 ^ 31) (hargs : arguments.length < 2 ^ 32) {cmd : Command}
    (hcmd : getCommandByIndex fw (UInt8.ofInt commandCode) = some cmd) :
    ∃ i, x.Calls fw cmd.callback i ∧ i.args.rest = arguments.flatMap Argument.pack :=
  executeDatagramCommands_carried hread hx hcode hargs hcmd

/-! ## Arguments -/

section Reads

variable {r : CmpReader} {t : List UInt8}

theorem readUinteger_int (hread : ReadLaw fw.cmp) {n : Nat} (hn : n < 2 ^ 64)
    (h : r.rest = (Argument.int n).pack ++ t) (old : UInt64) :
    fw.cmp.readUinteger r old = ⟨true, UInt64.ofNat n, r.seek t⟩ :=
  hread.readUinteger r old n t (by rw [h]; exact Msgpack.uint?_uint (by simp) hn t)

theorem readUint_int (hread : ReadLaw fw.cmp) {n : Nat} (hn : n < 2 ^ 32)
    (h : r.rest = (Argument.int n).pack ++ t) (old : UInt32) :
    fw.cmp.readUint r old = ⟨true, UInt32.ofNat n, r.seek t⟩ :=
  hread.readUint r old n t (by rw [h]; exact Msgpack.uint?_uint (by simp) hn t)

theorem readStr_str (hstr : ReadStrLaw fw.cmp) {s : List UInt8} {size : UInt32}
    (hs : s.length < size.toNat) (h : r.rest = (Argument.str s).pack ++ t) (data : Store) :
    fw.cmp.readStr r data size =
      ⟨true, data.blit 0 (s ++ [0]), UInt32.ofNat s.length, r.seek t⟩ := by
  have hsize := size.toNat_lt
  refine hstr.fits r data size s t ?_ hs
  rw [h, Argument.pack, List.append_assoc]
  exact Msgpack.str?_encode (by omega) t

theorem readBinSize_bytes (hread : ReadLaw fw.cmp) {b : List UInt8} (hb : b.length < 2 ^ 32)
    (h : r.rest = (Argument.bytes b).pack ++ t) (old : UInt32) :
    fw.cmp.readBinSize r old = ⟨true, UInt32.ofNat b.length, r.seek (b ++ t)⟩ := by
  refine hread.readBinSize r old b.length (b ++ t) ?_
  rw [h, Argument.pack, List.append_assoc]
  exact Msgpack.binLen?_binHeader hb _

end Reads

/-! ## Flashing -/

/-- `command_crc_region` reads this address and this length. -/
structure ReadsRegion (fw : Firmware) (i : Invocation) (address length : Nat) : Prop where
  address_ok : (fw.cmp.readUinteger i.args i.locals.tmp).ok = true
  address_eq : (fw.cmp.readUinteger i.args i.locals.tmp).value.toUInt32 = UInt32.ofNat address
  length_ok : (fw.cmp.readUint (fw.cmp.readUinteger i.args i.locals.tmp).reader
    i.locals.size).ok = true
  length_eq : (fw.cmp.readUint (fw.cmp.readUinteger i.args i.locals.tmp).reader
    i.locals.size).value = UInt32.ofNat length

/-- The flash commands read this address, inside the application, and this device class, which
    passes their check. -/
structure ReadsTarget (fw : Firmware) (i : Invocation) (address : Nat) (deviceClass : List UInt8) :
    Prop where
  address_eq : (fw.cmp.readUinteger i.args 0).value.toUInt32 = UInt32.ofNat address
  in_app : AddressInApp fw i.args
  class_eq : ∃ r, readDeviceClass fw i = ⟨true, i.locals.deviceClass.blit 0 (deviceClass ++ [0]),
    UInt32.ofNat deviceClass.length, r⟩
  class_matches : strcmpEq (readDeviceClass fw i).data (cString i.config.deviceClass) = true

/-- `command_write_flash` reads the size of the data, and its `src` points to the data. -/
structure ReadsData (fw : Firmware) (i : Invocation) (data : List UInt8) : Prop where
  size_eq : ∃ r, fw.cmp.readBinSize (readDeviceClass fw i).reader (readDeviceClass fw i).size =
    ⟨true, UInt32.ofNat data.length, r⟩ ∧ r.buf.slice r.pos data.length = data

/-- The address of an erase or write command. -/
theorem readsAddress {i : Invocation} (hread : ReadLaw fw.cmp) {address : Nat} {t : List UInt8}
    (hargs : i.args.rest = (Argument.int address).pack ++ t)
    (hlow : fw.app.toNat ≤ address) (hhigh : address < fw.app.toNat + fw.appSize.toNat) :
    (fw.cmp.readUinteger i.args 0).value.toUInt32 = UInt32.ofNat address ∧
      AddressInApp fw i.args ∧ (fw.cmp.readUinteger i.args 0).reader.rest = t := by
  have hend := fw.app_end
  have hflash := fw.flashEnd.toNat_lt
  have haddress := readUinteger_int hread (n := address) (by omega) hargs 0
  have hnat : (UInt32.ofNat address).toNat = address :=
    UInt32.toNat_ofNat_of_lt' (show address < 2 ^ 32 by omega)
  refine ⟨?_, ?_, ?_⟩
  · rw [haddress, UInt64.toUInt32_ofNat']
  · simp only [AddressInApp, haddress, UInt64.toUInt32_ofNat', UInt32.le_iff_toNat_le,
      UInt32.lt_iff_toNat_lt, UInt32.toNat_add, hnat]
    omega
  · rw [haddress]
    exact CmpReader.rest_seek hargs

/-- The address and device class of an erase or write command. -/
theorem readsTarget {i : Invocation} (hread : ReadLaw fw.cmp) (hstr : ReadStrLaw fw.cmp)
    {address : Nat} {deviceClass t : List UInt8}
    (hargs : i.args.rest = (Argument.int address).pack ++ ((Argument.str deviceClass).pack ++ t))
    (hlow : fw.app.toNat ≤ address) (hhigh : address < fw.app.toNat + fw.appSize.toNat)
    (hlen : deviceClass.length ≤ 63) (hclass : cString i.config.deviceClass = deviceClass) :
    ReadsTarget fw i address deviceClass ∧ (readDeviceClass fw i).reader.rest = t := by
  obtain ⟨haddress, hinApp, hrest⟩ := readsAddress hread hargs hlow hhigh
  have hsize : deviceClass.length < (64 : UInt32).toNat := by
    simp only [UInt32.reduceToNat]
    omega
  have hread' : readDeviceClass fw i = ⟨true, i.locals.deviceClass.blit 0 (deviceClass ++ [0]),
      UInt32.ofNat deviceClass.length, (fw.cmp.readUinteger i.args 0).reader.seek t⟩ :=
    readStr_str hstr hsize hrest i.locals.deviceClass
  refine ⟨⟨haddress, hinApp, ⟨_, hread'⟩, ?_⟩, ?_⟩
  · rw [hread', hclass]
    have hnul : 0 ∉ deviceClass := hclass ▸ nul_notMem_cString _
    exact (strcmpEq_blit _ _ hnul).mpr (beforeNul_eq_self hnul)
  · rw [hread']
    exact CmpReader.rest_seek hrest

/-! What the commands do with their arguments, as values. -/

section Arguments

variable (fw) (i : Invocation)

def crcRegionOf (address size : UInt32) : Code Reply := do
  let address2 := address + size
  if !fw.addressBoundaryCheckDisabled &&
      (address < fw.flashBegin || address ≥ fw.flashEnd ||
        address2 < fw.flashBegin || address2 ≥ fw.flashEnd) then
    return i.reply (fw.cmp.writeUint i.out crcErrorIllegalAddress)
  let m ← readMemory
  return i.reply (fw.cmp.writeUint i.out (fw.crc32 0 (m.read address size.toNat)).toUInt64)

/-- The area that the erase looks at is as long as the device class. -/
def eraseFlashPageOf (address : UInt32) (deviceClass : List UInt8) : Code Reply := do
  if address < fw.app then
    return i.reply (fw.cmp.writeUint i.out flashEraseErrorBeforeApp)
  if address ≥ fw.app + fw.appSize then
    return i.reply (fw.cmp.writeUint i.out flashEraseErrorAfterApp)
  if deviceClass ≠ cString i.config.deviceClass then
    return i.reply (fw.cmp.writeUint i.out flashEraseErrorDeviceClassMismatch)
  let retry ← eraseLoop address (UInt32.ofNat deviceClass.length) fw.flashEraseRetries.toNat
  let out := if retry = 0 then fw.cmp.writeUint i.out flashEraseFailed else i.out
  return i.reply (fw.cmp.writeUint out flashEraseSuccess)

def writeFlashOf (address : UInt32) (deviceClass data : List UInt8) : Code Reply := do
  if address < fw.app then
    return i.reply (fw.cmp.writeUint i.out flashWriteErrorBeforeApp)
  if address ≥ fw.app + fw.appSize then
    return i.reply (fw.cmp.writeUint i.out flashWriteErrorAfterApp)
  if deviceClass ≠ cString i.config.deviceClass then
    return i.reply (fw.cmp.writeUint i.out flashWriteErrorDeviceClassMismatch)
  let m ← readMemory
  if !flashPageIsErased m address (UInt32.ofNat data.length) then
    return i.reply (fw.cmp.writeUint i.out flashWriteErrorNotErased)
  flashWriterUnlock
  flashWriterPageWrite address data
  flashWriterLock
  return i.reply (fw.cmp.writeBool i.out flashWriteSuccess)

end Arguments

/-- The CRC command on these arguments. -/
theorem commandCrcRegion_encoded {i : Invocation} (hread : ReadLaw fw.cmp) {address length : Nat}
    {t : List UInt8} (haddress : address < 2 ^ 32) (hlength : length < 2 ^ 32)
    (hargs : i.args.rest = (Argument.int address).pack ++ ((Argument.int length).pack ++ t)) :
    commandCrcRegion fw i = crcRegionOf fw i (UInt32.ofNat address) (UInt32.ofNat length) := by
  have h1 := readUinteger_int hread (n := address) (by omega) hargs i.locals.tmp
  have h2 := readUint_int hread hlength (CmpReader.rest_seek hargs) i.locals.size
  unfold commandCrcRegion crcRegionOf
  simp only [h1, h2, UInt64.toUInt32_ofNat', Bool.not_true, Bool.false_eq_true, if_false]

/-- The comparison with the device class of the node. -/
theorem strcmpEq_deviceClass {deviceClass : List UInt8} (hnul : 0 ∉ deviceClass)
    (data config : Store) :
    strcmpEq (data.blit 0 (deviceClass ++ [0])) (cString config) =
      decide (deviceClass = cString config) := by
  rw [Bool.eq_iff_iff, decide_eq_true_iff, strcmpEq_blit _ _ (nul_notMem_cString _),
    beforeNul_eq_self hnul]

/-- The first two arguments of the flash commands. -/
theorem readDeviceClass_encoded {i : Invocation} (hread : ReadLaw fw.cmp)
    (hstr : ReadStrLaw fw.cmp) {address : Nat} {deviceClass t : List UInt8}
    (haddress : address < 2 ^ 32) (hlen : deviceClass.length ≤ 63)
    (hargs : i.args.rest = (Argument.int address).pack ++ ((Argument.str deviceClass).pack ++ t)) :
    ∃ r, fw.cmp.readUinteger i.args 0 = ⟨true, UInt64.ofNat address, r⟩ ∧
      ∃ r', fw.cmp.readStr r i.locals.deviceClass 64 =
        ⟨true, i.locals.deviceClass.blit 0 (deviceClass ++ [0]), UInt32.ofNat deviceClass.length,
          r'⟩ ∧ r'.rest = t := by
  have hsize : deviceClass.length < (64 : UInt32).toNat := by
    simp only [UInt32.reduceToNat]
    omega
  have hrest := CmpReader.rest_seek hargs
  exact ⟨_, readUinteger_int hread (by omega) hargs 0, _, readStr_str hstr hsize hrest _,
    CmpReader.rest_seek hrest⟩

/-- The erase command on these arguments. -/
theorem commandEraseFlashPage_encoded {i : Invocation} (hread : ReadLaw fw.cmp)
    (hstr : ReadStrLaw fw.cmp) {address : Nat} {deviceClass t : List UInt8}
    (haddress : address < 2 ^ 32) (hlen : deviceClass.length ≤ 63) (hnul : 0 ∉ deviceClass)
    (hargs : i.args.rest = (Argument.int address).pack ++ ((Argument.str deviceClass).pack ++ t)) :
    commandEraseFlashPage fw i = eraseFlashPageOf fw i (UInt32.ofNat address) deviceClass := by
  obtain ⟨r, h1, r', h2, -⟩ := readDeviceClass_encoded hread hstr haddress hlen hargs
  unfold commandEraseFlashPage eraseFlashPageOf
  simp only [h1, h2, UInt64.toUInt32_ofNat', strcmpEq_deviceClass hnul, Bool.not_eq_true',
    decide_eq_false_iff_not, ne_eq]

/-- The write command on these arguments. -/
theorem commandWriteFlash_encoded {i : Invocation} (hread : ReadLaw fw.cmp)
    (hstr : ReadStrLaw fw.cmp) {address : Nat} {deviceClass data t : List UInt8}
    (haddress : address < 2 ^ 32) (hlen : deviceClass.length ≤ 63) (hnul : 0 ∉ deviceClass)
    (hdata : data.length < 2 ^ 32)
    (hargs : i.args.rest = (Argument.int address).pack ++
      ((Argument.str deviceClass).pack ++ ((Argument.bytes data).pack ++ t))) :
    commandWriteFlash fw i = writeFlashOf fw i (UInt32.ofNat address) deviceClass data := by
  obtain ⟨r, h1, r', h2, hrest⟩ := readDeviceClass_encoded hread hstr haddress hlen hargs
  have h3 := readBinSize_bytes hread hdata hrest (UInt32.ofNat deviceClass.length)
  have hdataNat : (UInt32.ofNat data.length).toNat = data.length :=
    UInt32.toNat_ofNat_of_lt' hdata
  have hsrc : (r'.seek (data ++ t)).rest = data ++ t := by
    rw [Argument.pack, List.append_assoc] at hrest
    exact CmpReader.rest_seek hrest
  have hslice : (r'.seek (data ++ t)).buf.slice (r'.seek (data ++ t)).pos data.length = data := by
    rw [CmpReader.slice_eq_take _ (by rw [hsrc]; simp), hsrc, List.take_left]
  unfold commandWriteFlash writeFlashOf
  simp only [h1, h2, h3, hdataNat, hslice, UInt64.toUInt32_ofNat', strcmpEq_deviceClass hnul,
    Bool.not_eq_true', decide_eq_false_iff_not, ne_eq, Bool.not_true, Bool.false_eq_true, if_false]

/-- An erase command of the client reaches its handler. -/
theorem calls_erase (hread : ReadLaw fw.cmp) {address : Nat} {deviceClass : List UInt8}
    (hx : x.Carries (encodeEraseFlashPage address deviceClass)) :
    ∃ i, x.Calls fw (commandEraseFlashPage fw) i ∧
      i.args.rest = (Argument.int address).pack ++ ((Argument.str deviceClass).pack ++ []) :=
  executeDatagramCommands_encoded hread hx (by decide) (by simp)
    (show getCommandByIndex fw _ = some ⟨3, commandEraseFlashPage fw⟩ from rfl)

/-- So does a write command. -/
theorem calls_write (hread : ReadLaw fw.cmp) {address : Nat} {deviceClass data : List UInt8}
    (hx : x.Carries (encodeWriteFlash data address deviceClass)) :
    ∃ i, x.Calls fw (commandWriteFlash fw) i ∧ i.args.rest = (Argument.int address).pack ++
      ((Argument.str deviceClass).pack ++ ((Argument.bytes data).pack ++ [])) :=
  executeDatagramCommands_encoded hread hx (by decide) (by simp)
    (show getCommandByIndex fw _ = some ⟨4, commandWriteFlash fw⟩ from rfl)

/-- The client's commands that flash a board arrive: the CRC, erase and write commands call their
    handlers. These read back address and length, or address, device class and data, and do with
    them what is written down for these values. -/
theorem commands_agree (fw : Firmware) (hread : ReadLaw fw.cmp) (hstr : ReadStrLaw fw.cmp)
    (x : DatagramCall) (address length : Nat) (deviceClass data : List UInt8)
    (haddress : address < 2 ^ 32) (hlength : length < 2 ^ 32) (hlen : deviceClass.length ≤ 63)
    (hclass : cString x.config.deviceClass = deviceClass)
    (hdata : (encodeWriteFlash data address deviceClass).length ≤ fw.inputBufferSize) :
    (x.Carries (encodeCrcRegion address length) →
      ∃ i, x.Calls fw (commandCrcRegion fw) i ∧ ReadsRegion fw i address length ∧
        commandCrcRegion fw i = crcRegionOf fw i (UInt32.ofNat address) (UInt32.ofNat length)) ∧
    (fw.app.toNat ≤ address → address < fw.app.toNat + fw.appSize.toNat →
      (x.Carries (encodeEraseFlashPage address deviceClass) →
        ∃ i, x.Calls fw (commandEraseFlashPage fw) i ∧ ReadsTarget fw i address deviceClass ∧
          commandEraseFlashPage fw i =
            eraseFlashPageOf fw i (UInt32.ofNat address) deviceClass) ∧
      (x.Carries (encodeWriteFlash data address deviceClass) →
        ∃ i, x.Calls fw (commandWriteFlash fw) i ∧ ReadsTarget fw i address deviceClass ∧
          ReadsData fw i data ∧
          commandWriteFlash fw i =
            writeFlashOf fw i (UInt32.ofNat address) deviceClass data)) := by
  have hnul : 0 ∉ deviceClass := hclass ▸ nul_notMem_cString _
  refine ⟨fun hx => ?_, fun hlow hhigh => ⟨fun hx => ?_, fun hx => ?_⟩⟩
  · obtain ⟨i, hcalls, hargs⟩ := executeDatagramCommands_encoded hread hx (by decide) (by simp)
      (show getCommandByIndex fw _ = some ⟨2, commandCrcRegion fw⟩ from rfl)
    simp only [List.flatMap_cons, List.flatMap_nil] at hargs
    have h1 := readUinteger_int hread (n := address) (by omega) hargs i.locals.tmp
    have h2 := readUint_int hread hlength (CmpReader.rest_seek hargs) i.locals.size
    refine ⟨i, hcalls, ⟨?_, ?_, ?_, ?_⟩, commandCrcRegion_encoded hread haddress hlength hargs⟩
    · rw [h1]
    · rw [h1, UInt64.toUInt32_ofNat']
    · rw [h1, h2]
    · rw [h1, h2]
  · obtain ⟨i, hcalls, hargs⟩ := calls_erase hread hx
    exact ⟨i, hcalls, (readsTarget hread hstr hargs hlow hhigh hlen
      (by rw [hcalls.config, hclass])).1,
      commandEraseFlashPage_encoded hread hstr haddress hlen hnul hargs⟩
  · obtain ⟨i, hcalls, hargs⟩ := calls_write hread hx
    obtain ⟨htarget, hrest⟩ := readsTarget hread hstr hargs hlow hhigh hlen
      (by rw [hcalls.config, hclass])
    have hsize : data.length < 2 ^ 32 := by
      have hbuf := fw.inputBufferSize_lt
      simp [encodeWriteFlash, encodeCommand, Argument.pack] at hdata
      omega
    have hbin := readBinSize_bytes hread hsize hrest (readDeviceClass fw i).size
    have hsrc : ((readDeviceClass fw i).reader.seek (data ++ [])).rest = data ++ [] := by
      rw [Argument.pack, List.append_assoc] at hrest
      exact CmpReader.rest_seek hrest
    refine ⟨i, hcalls, htarget, ⟨_, hbin, ?_⟩,
      commandWriteFlash_encoded hread hstr haddress hlen hnul hsize hargs⟩
    rw [CmpReader.slice_eq_take _ (by rw [hsrc]; simp), hsrc, List.take_left]

/-- A write of three bytes to the first page of the application of the Nucleo board. -/
def writeCall : DatagramCall where
  data := Store.ofList (encodeWriteFlash [1, 2, 3] 0x08010000 nucleoFirmware.platformDeviceClass)
  dataLen := 38
  outBuf := fun _ => 0
  outLen := nucleoFirmware.outputBufferSize
  config := blankConfig
  status := 0
  locals := blankLocals

theorem commands_agree_write :
    ∃ i, writeCall.Calls nucleoFirmware (commandWriteFlash nucleoFirmware) i ∧
      ReadsTarget nucleoFirmware i 0x08010000 nucleoFirmware.platformDeviceClass ∧
      ReadsData nucleoFirmware i [1, 2, 3] ∧
      commandWriteFlash nucleoFirmware i = writeFlashOf nucleoFirmware i (UInt32.ofNat 0x08010000)
        nucleoFirmware.platformDeviceClass [1, 2, 3] :=
  ((commands_agree nucleoFirmware Cmp.reference_read Cmp.reference_readStr writeCall 0x08010000 3
    nucleoFirmware.platformDeviceClass [1, 2, 3] (by decide) (by decide) (by decide) (by decide)
    (by decide)).2 (by decide) (by decide)).2 (show writeCall.data.slice 0 38 = _ by decide)

/-! ## Reading -/

/-- The reply is exactly these bytes. -/
def RepliesWith {σ : Type} (o : Prog.Outcome σ Call Execution) (bytes : List UInt8) : Prop :=
  ∃ e, o.value = some e ∧ e.result = bytes.length ∧ e.outBuf.slice 0 bytes.length = bytes

/-- There is one reply. -/
theorem repliesWith_unique {σ : Type} {o : Prog.Outcome σ Call Execution} {a b : List UInt8}
    (ha : RepliesWith o a) (hb : RepliesWith o b) : a = b := by
  obtain ⟨e, he, hlen, hslice⟩ := ha
  obtain ⟨e', he', hlen', hslice'⟩ := hb
  obtain rfl := Option.some.inj (he.symm.trans he')
  have hsame : a.length = b.length := by
    rw [hlen, Int.natCast_inj] at hlen'
    exact hlen'
  rw [← hslice, ← hslice', hsame]

/-- The reply of a handler that was called is the reply of the dispatcher. -/
theorem repliesWith_handler {σ : Type} {p : Platform σ} {w : σ} {callback : Callback}
    {i : Invocation} {bytes : List UInt8} (hcalls : x.Calls fw callback i)
    (h : ∃ r, (Prog.run p.handler (callback i) w).value = some r ∧ i.out.written r.out = bytes) :
    RepliesWith (Prog.run p.handler (x.code fw) w) bytes := by
  obtain ⟨r, hvalue, hwritten⟩ := h
  generalize hworld : (Prog.run p.handler (callback i) w).world = t
  have hcode : Prog.Returns p.handler (x.code fw) w ⟨r.out.pos, r.out.buf, r.config⟩ t := by
    rw [hcalls.code_eq]
    exact Prog.Returns.bind ⟨hvalue, hworld⟩ (.ret _ t)
  rw [hcalls.out, CmpWriter.written, CmpWriter.init, Nat.sub_zero] at hwritten
  have hlen := congrArg List.length hwritten
  rw [Store.slice_length] at hlen
  refine ⟨_, hcode.1, by rw [hlen], ?_⟩
  rw [← hlen]
  exact hwritten

/-- The MessagePack binary that answers a read command. -/
def readReply (m : Mem) (address length : Nat) : List UInt8 :=
  Msgpack.binHeader length ++ m.read (UInt32.ofNat address) length

/-- A binary tells its size. -/
theorem binHeader_determines {n k : Nat} (hn : n < 2 ^ 32) (hk : k < 2 ^ 32) {xs ys : List UInt8}
    (h : Msgpack.binHeader n ++ xs <+: Msgpack.binHeader k ++ ys) : n = k := by
  obtain ⟨t, ht⟩ := h
  rw [List.append_assoc] at ht
  have h1 := Msgpack.binLen?_binHeader hn (xs ++ t)
  rw [ht, Msgpack.binLen?_binHeader hk] at h1
  simp only [Option.some.injEq, Prod.mk.injEq] at h1
  exact h1.1.symm

/-- The size that `command_read_flash` goes by: the argument if it has the 32-bit marker, else
    what its local holds. -/
theorem readU32_int (hu32 : ReadU32Law fw.cmp) {r : CmpReader} {n : Nat} {t : List UInt8}
    (hn : n < 2 ^ 32) (h : r.rest = (Argument.int n).pack ++ t) (old : UInt32) :
    (fw.cmp.readU32 r old).value = if 2 ^ 16 ≤ n then UInt32.ofNat n else old := by
  have hhead : r.rest.head? = some 0xce ↔ 2 ^ 16 ≤ n := by
    rw [h, Argument.pack, Msgpack.uint]
    split_ifs with h7 h8 h16
    · have hne : UInt8.ofNat n ≠ 0xce := by
        intro heq
        have hnat := congrArg UInt8.toNat heq
        rw [Msgpack.toNat_ofNat_of_lt (by omega)] at hnat
        simp only [UInt8.reduceToNat] at hnat
        omega
      simp [hne]
      omega
    · simp
      omega
    · simp
      omega
    · simp
      omega
  split_ifs with hbig
  · rw [hu32.marker r old n t (hhead.mpr hbig)
      (by rw [h]; exact Msgpack.uint?_uint (by simp) hn t)]
  · exact (hu32.other r old (fun hh => hbig (hhead.mp hh))).2

/-- A binary is written whole, or cut off. -/
theorem writeBin_part (hwrite : WriteLaw fw.cmp) (w : CmpWriter) (bs : List UInt8) :
    ∃ pre, pre <+: Msgpack.binHeader bs.length ++ bs ∧ fw.cmp.writeBin w bs = w.put pre := by
  by_cases hroom : w.pos + (Msgpack.binHeader bs.length ++ bs).length ≤ w.size
  · exact ⟨_, List.prefix_refl _, hwrite.writeBin w bs hroom⟩
  · obtain ⟨pre, hpre, hout⟩ := hwrite.writeBin_full w bs (not_le.mp hroom)
    exact ⟨pre, hpre.trans (List.prefix_append _ _), hout⟩

/-- The reply is what was written to the empty buffer. -/
theorem repliesWith_put {σ : Type} {o : Prog.Outcome σ Call Execution} {w : CmpWriter}
    {config : BootloaderConfig} {pre bytes : List UInt8} (hempty : w.pos = 0)
    (hvalue : o.value = some ⟨(w.put pre).pos, (w.put pre).buf, config⟩) :
    RepliesWith o bytes ↔ pre = bytes := by
  have hpos : (w.put pre).pos = pre.length := by rw [CmpWriter.put, hempty, Nat.zero_add]
  have hwritten := w.written_put pre
  rw [CmpWriter.written, hempty, hpos, Nat.sub_zero] at hwritten
  constructor
  · intro h
    obtain ⟨e, he, hlen, hslice⟩ := h
    rw [hvalue, Option.some.injEq] at he
    subst he
    have hlen' : pre.length = bytes.length := by
      simpa only [hpos, Int.natCast_inj] using hlen
    rw [← hlen'] at hslice
    exact hwritten.symm.trans hslice
  · intro heq
    subst heq
    exact ⟨_, hvalue, by rw [hpos], hwritten⟩

/-- The bytes of a read command: the reply is the requested bytes if and only if the length takes
    four bytes to encode, or the handler's uninitialised local happens to hold it. -/
theorem readFlash_replies_iff {σ : Type} (hread : ReadLaw fw.cmp) (hu32 : ReadU32Law fw.cmp)
    (hwrite : WriteLaw fw.cmp) (p : Platform σ) (w : σ) {address length : Nat}
    (haddress : address < 2 ^ 32) (hlength : length < 2 ^ 32)
    (hx : x.Carries (encodeCommand CommandType.read [.int address, .int length]))
    (hfits : (readReply (p.mem w) address length).length ≤ x.outLen) :
    RepliesWith (Prog.run p.handler (x.code fw) w) (readReply (p.mem w) address length) ↔
      2 ^ 16 ≤ length ∨ x.locals.size.toNat = length := by
  obtain ⟨i, hcalls, hargs⟩ := executeDatagramCommands_encoded hread hx (by decide) (by simp)
    (show getCommandByIndex fw _ = some ⟨6, commandReadFlash fw⟩ from rfl)
  simp only [List.flatMap_cons, List.flatMap_nil, List.append_nil] at hargs
  have h1 := readUinteger_int hread (n := address) (by omega) hargs i.locals.tmp
  have h2 := readU32_int hu32 hlength (t := []) (by
    rw [List.append_nil]
    exact CmpReader.rest_seek hargs) i.locals.size
  generalize hk : (if 2 ^ 16 ≤ length then UInt32.ofNat length else i.locals.size) = k at h2
  have hk32 := k.toNat_lt
  have hcond : (2 ^ 16 ≤ length ∨ x.locals.size.toNat = length) ↔ k.toNat = length := by
    rw [← hcalls.locals, ← hk]
    split_ifs with hbig
    · rw [UInt32.toNat_ofNat']
      omega
    · omega
  -- the handler replies with `k` bytes
  let bytes := (p.mem w).read (UInt32.ofNat address) k.toNat
  have hbytes : bytes.length = k.toNat := Store.slice_length _ _ _
  obtain ⟨pre, hpre, hout⟩ := writeBin_part hwrite i.out bytes
  have hvalue : (Prog.run p.handler (x.code fw) w).value =
      some ⟨(i.out.put pre).pos, (i.out.put pre).buf, i.config⟩ := by
    rw [hcalls.code_eq, ← hout]
    simp only [commandReadFlash, h1, h2, UInt64.toUInt32_ofNat']
    rfl
  have hempty : i.out.pos = 0 ∧ i.out.size = x.outLen := by
    rw [hcalls.out]
    exact ⟨rfl, rfl⟩
  rw [hcond, repliesWith_put hempty.1 hvalue]
  constructor
  · intro hreply
    rw [hreply, hbytes] at hpre
    exact (binHeader_determines hlength hk32 hpre).symm
  · intro heq
    have hreply : readReply (p.mem w) address length = Msgpack.binHeader bytes.length ++ bytes := by
      rw [readReply, hbytes, ← heq]
    have hwhole := hwrite.writeBin i.out bytes (by rw [hempty.1, hempty.2, ← hreply]; omega)
    rw [hreply, ← i.out.written_put pre, ← hout, hwhole, CmpWriter.written_put]

/-- The client encodes a read command, and executing it makes the handler reply with the bytes. -/
def ReadFlashAgrees {σ : Type} (fw : Firmware) (p : Platform σ) (w : σ) (address length : Nat) :
    Prop :=
  ∃ bytes, encodeReadFlash address length = some bytes ∧ ∀ x : DatagramCall, x.Carries bytes →
    (readReply (p.mem w) address length).length ≤ x.outLen →
      RepliesWith (Prog.run p.handler (x.code fw) w) (readReply (p.mem w) address length)

theorem encodeReadFlash_raises (address length : Nat) : encodeReadFlash address length = none :=
  rfl

/-- No read command of the client is answered: none is encoded. With the bytes that its function
    means to encode, the reply is the requested bytes if and only if the length takes four bytes
    to encode, or the handler's uninitialised local happens to hold it. -/
theorem readFlash_agrees_never {σ : Type} (fw : Firmware) (hread : ReadLaw fw.cmp)
    (hu32 : ReadU32Law fw.cmp) (hwrite : WriteLaw fw.cmp) (p : Platform σ) (w : σ)
    (address length : Nat) (haddress : address < 2 ^ 32) (hlength : length < 2 ^ 32) :
    ¬ ReadFlashAgrees fw p w address length ∧
      ∀ x : DatagramCall, x.Carries (encodeCommand CommandType.read [.int address, .int length]) →
        (readReply (p.mem w) address length).length ≤ x.outLen →
          (RepliesWith (Prog.run p.handler (x.code fw) w) (readReply (p.mem w) address length) ↔
            2 ^ 16 ≤ length ∨ x.locals.size.toNat = length) := by
  refine ⟨?_, fun x hx hfits =>
    readFlash_replies_iff hread hu32 hwrite p w haddress hlength hx hfits⟩
  rintro ⟨bytes, hbytes, -⟩
  rw [encodeReadFlash_raises] at hbytes
  cases hbytes

/-- The bytes of a read of the first 16 bytes of the application of the Nucleo board, with this word
    left in the handler's local. -/
def readCall (size : UInt32) : DatagramCall where
  data := Store.ofList (encodeCommand CommandType.read [.int 0x08010000, .int 16])
  dataLen := 9
  outBuf := fun _ => 0
  outLen := nucleoFirmware.outputBufferSize
  config := blankConfig
  status := 0
  locals := { blankLocals with size }

/-- The client raises; and of two such reads, the second is answered, since the local still holds
    the length. -/
theorem readFlash_agrees_never_leftover :
    ¬ ReadFlashAgrees nucleoFirmware blankPlatform () 0x08010000 16 ∧
      RepliesWith (Prog.run blankPlatform.handler ((readCall 16).code nucleoFirmware) ())
        (readReply (fun _ => 0xFF) 0x08010000 16) ∧
      ¬ RepliesWith (Prog.run blankPlatform.handler ((readCall 0).code nucleoFirmware) ())
        (readReply (fun _ => 0xFF) 0x08010000 16) := by
  obtain ⟨hraises, hreplies⟩ := readFlash_agrees_never nucleoFirmware Cmp.reference_read
    Cmp.reference_readU32 Cmp.reference_write blankPlatform () 0x08010000 16 (by decide)
    (by decide)
  refine ⟨hraises, ?_, ?_⟩
  · exact (hreplies (readCall 16) (show (readCall 16).data.slice 0 9 = _ by decide)
      (by decide)).mpr (.inr rfl)
  · intro h
    have hsize := (hreplies (readCall 0) (show (readCall 0).data.slice 0 9 = _ by decide)
      (by decide)).mp h
    exact absurd hsize (by decide)

/-- The encoding of a read of 16 bytes raises. -/
theorem readFlash_raises : ¬ ReadFlashAgrees nucleoFirmware blankPlatform () 0x08010000 16 := by
  rintro ⟨bytes, hbytes, -⟩
  rw [encodeReadFlash_raises] at hbytes
  cases hbytes

end CanBootloader
