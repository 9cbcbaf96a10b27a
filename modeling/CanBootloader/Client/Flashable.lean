/-
  Flashing a board after a configuration update.

  `config_update_from_serialized` reads the device class into a `char[65]`, and takes up to 64
  characters. The buffers of the erase and write commands are a `char[64]`: a device class of 64
  characters is not read, and the comparison runs on what the buffer held before.
  `updated_class_accepted_iff` says when a board accepts the device class it was given.
-/
import CanBootloader.Client.Verify
import CanBootloader.Firmware.ConfigRead
import CanBootloader.Firmware.EraseReply

namespace CanBootloader

open Lib

variable {fw : Firmware} {σ : Type} {p : Platform σ} {i : Invocation}

/-! ## Handlers -/

/-- Comparing a buffer of zeros with a string that is not empty. -/
theorem strcmpEq_zeros {c : List UInt8} (hnul : 0 ∉ c) (hne : c ≠ []) :
    strcmpEq (fun _ => 0) c = false := by
  cases c with
  | nil => exact absurd rfl hne
  | cons b c =>
      rw [strcmpEq, beq_eq_false_iff_ne, List.length_cons, Store.slice_succ, List.cons_append]
      intro h
      rw [(List.cons.inj h).1] at hnul
      exact hnul List.mem_cons_self

/-- An erase command that passes its checks does not reply with a mismatch. -/
theorem erase_reply_ne (hwrite : WriteLaw fw.cmp) (hargs : EraseArgumentsOk fw i)
    (hroom : i.out.pos + 2 ≤ i.out.size) (w : σ) :
    ∃ bytes ≠ Msgpack.uint flashEraseErrorDeviceClassMismatch.toNat,
      ∃ r, (Prog.run p.handler (commandEraseFlashPage fw i) w).value = some r ∧
        i.out.written r.out = bytes := by
  obtain ⟨n, a, t, hloop⟩ : ∃ n a t, Erases p n (eraseLoop (writeAddress fw i).toUInt32
      (readDeviceClass fw i).size fw.flashEraseRetries.toNat) w a t := by
    obtain ⟨j, -, -, -, hloop⟩ | ⟨-, hloop⟩ := erases_eraseLoop p (writeAddress fw i).toUInt32
      (readDeviceClass fw i).size w fw.flashEraseRetries.toNat
    · exact ⟨_, _, _, hloop⟩
    · exact ⟨_, _, _, hloop⟩
  have hrun := erases_commandErase hargs hloop
  refine ⟨_, ?_, _, hrun.1.1, rfl⟩
  split_ifs
  · rw [Invocation.reply, written_failed_success hwrite hroom]
    decide
  · rw [Invocation.reply, written_code hwrite (by omega) (by decide)]
    decide

/-- Nor does a write command, whatever is wrong with its data or its target. -/
theorem write_reply_ne (hwrite : WriteLaw fw.cmp) (happ : AddressInApp fw i.args)
    (hclass : strcmpEq (readDeviceClass fw i).data (cString i.config.deviceClass) = true)
    (hroom : i.out.pos + 2 ≤ i.out.size) (w : σ) :
    ∃ bytes ≠ Msgpack.uint flashWriteErrorDeviceClassMismatch.toNat,
      ∃ r, (Prog.run p.handler (commandWriteFlash fw i) w).value = some r ∧
        i.out.written r.out = bytes := by
  by_cases hok : (readDataSize fw i).ok = true
  · have hargs : WriteArgumentsOk fw i := ⟨happ, hclass, hok⟩
    by_cases haccept : WriteAccepted fw (p.mem w) i
    · refine ⟨_, ?_, _, (returns_write_accepted p haccept).1, rfl⟩
      rw [Invocation.reply, hwrite.writeBool _ _ (by omega), CmpWriter.written_put]
      decide
    · refine ⟨_, ?_, _, (returns_write_notErased p hargs haccept).1, rfl⟩
      rw [Invocation.reply, written_code hwrite (by omega) (by decide)]
      decide
  · have hmatch : ¬ (!strcmpEq (readDeviceClass fw i).data
        (cString i.config.deviceClass)) = true := by simp [hclass]
    have hsize : (!(readDataSize fw i).ok) = true := by simpa using hok
    have hcode : commandWriteFlash fw i =
        Prog.ret (i.reply (fw.cmp.writeUint i.out flashWriteErrorUnknownSize)) := by
      unfold commandWriteFlash
      simp only
      rw [if_neg (UInt32.not_lt.mpr happ.1), if_neg (UInt32.not_le.mpr happ.2)]
      exact (if_neg hmatch).trans (if_pos hsize)
    refine ⟨_, ?_, _, by rw [hcode]; rfl, rfl⟩
    rw [Invocation.reply, written_code hwrite (by omega) (by decide)]
    decide

/-- An erase command that fails the comparison. -/
theorem erase_reply_mismatch (hwrite : WriteLaw fw.cmp) (happ : AddressInApp fw i.args)
    (hclass : strcmpEq (readDeviceClass fw i).data (cString i.config.deviceClass) = false)
    (hroom : i.out.pos < i.out.size) (w : σ) :
    RepliesCode i flashEraseErrorDeviceClassMismatch
      (Prog.run p.handler (commandEraseFlashPage fw i) w) := by
  have hmatch : (!strcmpEq (readDeviceClass fw i).data (cString i.config.deviceClass)) = true := by
    simp [hclass]
  have hcode : commandEraseFlashPage fw i =
      Prog.ret (i.reply (fw.cmp.writeUint i.out flashEraseErrorDeviceClassMismatch)) := by
    unfold commandEraseFlashPage
    simp only
    rw [if_neg (UInt32.not_lt.mpr happ.1), if_neg (UInt32.not_le.mpr happ.2)]
    exact if_pos hmatch
  refine ⟨_, by rw [hcode]; rfl, ?_⟩
  exact written_code hwrite hroom (by decide)

/-! ## Commands of the client -/

/-- No erase or write command of the client with this device class is refused for it at this
    address, whatever the uninitialised locals hold. -/
def ClassAccepted (fw : Firmware) (p : Platform σ) (w : σ) (config : BootloaderConfig)
    (address : Nat) (deviceClass : List UInt8) : Prop :=
  ∀ (x : DatagramCall) (data : List UInt8), x.config = config → 2 ≤ x.outLen →
    (x.Carries (encodeEraseFlashPage address deviceClass) →
      ¬ RepliesWith (Prog.run p.handler (x.code fw) w)
        (Msgpack.uint flashEraseErrorDeviceClassMismatch.toNat)) ∧
    (x.Carries (encodeWriteFlash data address deviceClass) →
      ¬ RepliesWith (Prog.run p.handler (x.code fw) w)
        (Msgpack.uint flashWriteErrorDeviceClassMismatch.toNat))

section

variable {config : BootloaderConfig} {address : Nat} {deviceClass : List UInt8}
  (hread : ReadLaw fw.cmp) (hstr : ReadStrLaw fw.cmp) (hwrite : WriteLaw fw.cmp)
  (hlow : fw.app.toNat ≤ address) (hhigh : address < fw.app.toNat + fw.appSize.toNat)
  (hclass : cString config.deviceClass = deviceClass)

include hread hstr hwrite hlow hhigh hclass

/-- A device class that fits the buffers of the handlers. -/
theorem classAccepted_of_fits (hlen : deviceClass.length ≤ 63) (w : σ) :
    ClassAccepted fw p w config address deviceClass := by
  rintro x data rfl hout
  refine ⟨fun hx => ?_, fun hx => ?_⟩
  · obtain ⟨i, hcalls, hargs⟩ := calls_erase hread hx
    have htarget := (readsTarget hread hstr hargs hlow hhigh hlen
      (by rw [hcalls.config, hclass])).1
    obtain ⟨bytes, hne, hreply⟩ := erase_reply_ne (p := p) hwrite
      ⟨htarget.in_app, htarget.class_matches⟩ (by simp [hcalls.out, CmpWriter.init, hout]) w
    exact fun h => hne (repliesWith_unique (repliesWith_handler hcalls hreply) h)
  · obtain ⟨i, hcalls, hargs⟩ := calls_write hread hx
    have htarget := (readsTarget hread hstr hargs hlow hhigh hlen
      (by rw [hcalls.config, hclass])).1
    obtain ⟨bytes, hne, hreply⟩ := write_reply_ne (p := p) hwrite htarget.in_app
      htarget.class_matches (by simp [hcalls.out, CmpWriter.init, hout]) w
    exact fun h => hne (repliesWith_unique (repliesWith_handler hcalls hreply) h)

/-- One that does not: with zeros in the buffer, an erase command is refused. -/
theorem not_classAccepted_of_long (hlen : 64 ≤ deviceClass.length) (w : σ) :
    ¬ ClassAccepted fw p w config address deviceClass := by
  intro haccepted
  let bytes := encodeEraseFlashPage address deviceClass
  let x : DatagramCall :=
    { data := Store.ofList bytes
      dataLen := bytes.length
      outBuf := fun _ => 0
      outLen := 2
      config := config
      status := 0
      locals := blankLocals }
  have hx : x.Carries bytes := Store.slice_ofList [] bytes
  refine (haccepted x [] rfl (le_refl 2)).1 hx ?_
  obtain ⟨i, hcalls, hargs⟩ := calls_erase hread hx
  obtain ⟨-, happ, hrest⟩ := readsAddress hread hargs hlow hhigh
  have hnul : 0 ∉ deviceClass := hclass ▸ nul_notMem_cString _
  have hle : deviceClass.length ≤ 65 := hclass ▸ cString_length_le _
  -- the string is there, and too long
  have hstring : Msgpack.str? (fw.cmp.readUinteger i.args 0).reader.rest =
      some (deviceClass, []) := by
    rw [hrest, List.append_nil]
    have hencoded := Msgpack.str?_encode (show deviceClass.length < 2 ^ 32 by omega) []
    rwa [List.append_nil] at hencoded
  have hdata : (readDeviceClass fw i).data = fun _ => 0 := by
    rw [readDeviceClass, (hstr.too_long _ _ 64 deviceClass [] hstring hlen).2, hcalls.locals]
    rfl
  have hmismatch : strcmpEq (readDeviceClass fw i).data (cString i.config.deviceClass) = false := by
    rw [hdata, hcalls.config, hclass]
    exact strcmpEq_zeros hnul (List.length_pos_iff.mp (by omega))
  exact repliesWith_handler hcalls
    (erase_reply_mismatch hwrite happ hmismatch (by simp [hcalls.out, CmpWriter.init, x]) w)

end

/-- A board that took a device class from an update accepts it from the client exactly if it is
    shorter than the buffers of the handlers. -/
theorem updated_class_accepted_iff (fw : Firmware) (hread : ReadLaw fw.cmp)
    (hstr : ReadStrLaw fw.cmp) (hfail : ReadOrFailLaw fw.cmp) (hwrite : WriteLaw fw.cmp)
    (p : Platform σ) (w : σ) (l : Locals) (config : BootloaderConfig) (context : CmpReader)
    (deviceClass : List UInt8)
    (hstored : Patch.lastFor (updateAssignments fw l.key context) .deviceClass =
      some (.string deviceClass))
    (address : Nat) (hlow : fw.app.toNat ≤ address)
    (hhigh : address < fw.app.toNat + fw.appSize.toNat) :
    ClassAccepted fw p w (configUpdateFromSerialized fw l config context) address deviceClass ↔
      deviceClass.length ≤ 63 := by
  have hclass : cString (configUpdateFromSerialized fw l config context).deviceClass =
      deviceClass := by
    have hget := describes_configUpdateFromSerialized hfail l context config .deviceClass
    rw [hstored] at hget
    exact ConfigValue.string.inj hget
  constructor
  · intro haccepted
    by_contra hlong
    exact not_classAccepted_of_long hread hstr hwrite hlow hhigh hclass (by omega) w haccepted
  · intro hlen
    exact classAccepted_of_fits hread hstr hwrite hlow hhigh hclass hlen w

/-- An update with this device class. -/
def classUpdate (deviceClass : List UInt8) : CmpReader :=
  bytesContext (0x81 :: strBytes configKeyDeviceClass ++ strBytes deviceClass)

theorem updated_class_accepted_iff_short : ClassAccepted nucleoFirmware blankPlatform ()
    (configUpdateFromSerialized nucleoFirmware blankLocals blankConfig
      (classUpdate (ascii "CVRA.motorboard.v1"))) 0x08010000 (ascii "CVRA.motorboard.v1") :=
  (updated_class_accepted_iff nucleoFirmware Cmp.reference_read Cmp.reference_readStr
    Cmp.reference_readOrFail Cmp.reference_write blankPlatform () blankLocals blankConfig
    (classUpdate (ascii "CVRA.motorboard.v1")) (ascii "CVRA.motorboard.v1") (by decide +kernel)
    0x08010000 (by decide) (by decide)).mpr (by decide)

/-- The longest device class that the configuration holds. -/
def longestClass : List UInt8 := List.replicate 64 0x61

/-- An update stores it, and from then on the board refuses it. -/
theorem longest_class_refused :
    Patch.lastFor (updateAssignments nucleoFirmware blankLocals.key (classUpdate longestClass))
      .deviceClass = some (.string longestClass) ∧
    ¬ ClassAccepted nucleoFirmware blankPlatform () (configUpdateFromSerialized nucleoFirmware
      blankLocals blankConfig (classUpdate longestClass)) 0x08010000 longestClass := by
  refine ⟨by decide +kernel, ?_⟩
  refine not_classAccepted_of_long Cmp.reference_read Cmp.reference_readStr Cmp.reference_write
    (by decide) (by decide) ?_ (by decide) ()
  decide +kernel

end CanBootloader
