/-
  The device-class check of the erase and write commands.

  The result of `cmp_read_str` is not looked at, so after a failed read the comparison runs on
  what the local buffer held before; and a C string ends at its first NUL, which a MessagePack
  string may contain. `touchesFlash_iff` says when a command gets to flash memory, and
  `deviceClass_checked_iff` when that is only with the right device class.
-/
import CanBootloader.Firmware.Rounds
import Mathlib.Data.List.TakeWhile

namespace CanBootloader

open Lib

/-! ## Comparison -/

/-- The part of a byte string before the first NUL. -/
def beforeNul (bs : List UInt8) : List UInt8 := bs.takeWhile (· ≠ 0)

theorem beforeNul_eq_iff {u c : List UInt8} (hc : 0 ∉ c) (hlen : c.length < u.length) :
    beforeNul u = c ↔ u.take (c.length + 1) = c ++ [0] := by
  induction u generalizing c with
  | nil => simp at hlen
  | cons b u ih =>
      cases c with
      | nil =>
          by_cases hb : b = 0
          · simp [beforeNul, hb]
          · simp [beforeNul, hb]
      | cons d c =>
          simp only [List.mem_cons, not_or] at hc
          have hrest := ih hc.2 (by simpa using hlen)
          simp only [List.length_cons, List.take_succ_cons, List.cons_append, List.cons.injEq]
          rw [← hrest]
          by_cases hb : b = 0
          · simp [beforeNul, hb, hc.1]
          · simp [beforeNul, hb]

theorem beforeNul_append (bs rest : List UInt8) : beforeNul (bs ++ 0 :: rest) = beforeNul bs := by
  induction bs with
  | nil => simp [beforeNul]
  | cons b bs ih =>
      by_cases hb : b = 0
      · simp [beforeNul, hb]
      · simpa [beforeNul, hb] using ih

theorem beforeNul_eq_self {bs : List UInt8} (h : 0 ∉ bs) : beforeNul bs = bs := by
  rw [beforeNul, List.takeWhile_eq_self_iff]
  intro b hb
  simpa using ne_of_mem_of_not_mem hb h

theorem nul_notMem_cString (s : Store) : 0 ∉ cString s := by
  intro h
  have hne := List.mem_takeWhile_imp h
  simp at hne

theorem cString_length_le (s : Store) : (cString s).length ≤ 65 := by
  have hle : (cString s).length ≤ (s.slice 0 65).length := (List.takeWhile_sublist _).length_le
  rwa [Store.slice_length] at hle

/-- Comparing a buffer that a string was read into: what counts is the string up to its first
    NUL. -/
theorem strcmpEq_blit (data : Store) (s : List UInt8) {c : List UInt8} (hc : 0 ∉ c) :
    strcmpEq (data.blit 0 (s ++ [0])) c = true ↔ beforeNul s = c := by
  generalize hn : c.length + s.length + 1 = n
  have hbuf : (data.blit 0 (s ++ [0])).slice 0 n =
      s ++ 0 :: (data.blit 0 (s ++ [0])).slice (s.length + 1) (n - (s.length + 1)) := by
    have hsplit := Store.slice_append (data.blit 0 (s ++ [0])) 0 (s.length + 1) (n - (s.length + 1))
    have hread := Store.slice_blit (s ++ [0]) data 0
    rw [List.length_append, List.length_singleton] at hread
    rw [hread, Nat.zero_add, show s.length + 1 + (n - (s.length + 1)) = n by omega] at hsplit
    rw [← hsplit]
    simp
  have htake := Store.slice_take (data.blit 0 (s ++ [0])) 0 (show c.length + 1 ≤ n by omega)
  rw [strcmpEq, beq_iff_eq, ← htake, ← beforeNul_eq_iff hc (by rw [Store.slice_length]; omega),
    hbuf, beforeNul_append]

/-! ## Commands -/

/-- A call that changes flash memory. -/
def Call.touchesFlash : Call → Bool
  | .flashWriterPageErase _ => true
  | .flashWriterPageWrite _ _ => true
  | _ => false

/-- Some call of the execution changes flash memory. -/
def TouchesFlash {σ α : Type} (o : Prog.Outcome σ Call α) : Prop :=
  ∃ c ∈ o.calls, c.2.touchesFlash = true

variable (fw : Firmware)

/-- The command's second argument, if it is a string: the object behind the address. -/
def secondArgument (args : CmpReader) : Option (List UInt8) :=
  (Msgpack.str? (fw.cmp.readUinteger args 0).reader.rest).map Prod.fst

/-- Everything but the device class lets the command through: the address, and for a write a
    size and an erased target. -/
def FlashCommand.Reaches (m : Mem) (i : Invocation) : FlashCommand → Prop
  | .erase => AddressInApp fw i.args
  | .write =>
      let s := readDeviceClass fw i
      let b := fw.cmp.readBinSize s.reader s.size
      AddressInApp fw i.args ∧ b.ok = true ∧
        flashPageIsErased m (fw.cmp.readUinteger i.args 0).value.toUInt32 b.value = true

variable {fw} {σ : Type} (p : Platform σ)

theorem touchesFlash_ret {α : Type} (a : α) (w : σ) :
    ¬ TouchesFlash (Prog.run p.handler (Prog.ret a : Code α) w) := by
  simp [TouchesFlash]

theorem touchesFlash_call {α : Type} {op : Call} {k : op.Resp → Code α} {w v : σ} {r : op.Resp}
    (h : p.handler op w = some (r, v)) :
    TouchesFlash (Prog.run p.handler (Prog.call op k) w) ↔
      op.touchesFlash = true ∨ TouchesFlash (Prog.run p.handler (k r) v) := by
  simp [TouchesFlash, Prog.run_call_some p.handler h]

theorem touchesFlash_memory {α : Type} (f : Mem → Code α) (w : σ) :
    TouchesFlash (Prog.run p.handler (readMemory >>= f) w) ↔
      TouchesFlash (Prog.run p.handler (f (p.mem w)) w) := by
  rw [readMemory, Prog.call_bind, touchesFlash_call p (v := w) (r := p.mem w) rfl]
  simp [Call.touchesFlash]

/-- The erase loop begins with an erase. -/
theorem touchesFlash_eraseLoop (address size : UInt32) (retry : Nat) (f : UInt8 → Code Reply)
    (w : σ) : TouchesFlash (Prog.run p.handler (eraseLoop address size retry >>= f) w) := by
  obtain ⟨k, hk⟩ : ∃ k : Unit → Code Reply, eraseLoop address size retry >>= f =
      Prog.call .flashWriterUnlock fun _ => Prog.call (.flashWriterPageErase address) k := by
    cases retry with
    | zero => exact ⟨_, rfl⟩
    | succ retry => exact ⟨_, rfl⟩
  rw [hk, touchesFlash_call p (v := p.unlock w) (r := ()) rfl,
    touchesFlash_call p (v := p.pageErase address (p.unlock w)) (r := ()) rfl]
  exact .inr (.inl rfl)

theorem touchesFlash_program {α : Type} (address : UInt32) (data : List UInt8) (f : Unit → Code α)
    (w : σ) : TouchesFlash (Prog.run p.handler
      (flashWriterUnlock >>= fun _ => flashWriterPageWrite address data >>= f) w) := by
  rw [flashWriterUnlock, Prog.call_bind, touchesFlash_call p (v := p.unlock w) (r := ()) rfl,
    Prog.ret_bind, flashWriterPageWrite, Prog.call_bind,
    touchesFlash_call p (v := p.pageWrite address data (p.unlock w)) (r := ()) rfl]
  exact .inr (.inl rfl)

theorem touchesFlash_erase (i : Invocation) (w : σ) :
    TouchesFlash (Prog.run p.handler (commandEraseFlashPage fw i) w) ↔ EraseArgumentsOk fw i := by
  obtain ⟨hrefused, code, heq⟩ | ⟨hok, heq⟩ := commandEraseFlashPage_cases fw i
  · rw [heq]
    exact iff_of_false (touchesFlash_ret p _ _) hrefused
  · rw [heq]
    exact iff_of_true (touchesFlash_eraseLoop p _ _ _ _ w) hok

theorem touchesFlash_write (i : Invocation) (w : σ) :
    TouchesFlash (Prog.run p.handler (commandWriteFlash fw i) w) ↔
      WriteArgumentsOk fw i ∧ flashPageIsErased (p.mem w) (writeAddress fw i).toUInt32
        (readDataSize fw i).value = true := by
  obtain ⟨hrefused, code, -, heq⟩ | ⟨hok, heq⟩ := commandWriteFlash_cases fw i
  · rw [heq]
    exact iff_of_false (touchesFlash_ret p _ _) fun h => hrefused h.1
  · -- what is left depends on the contents of the target
    rw [heq, touchesFlash_memory, and_iff_right hok]
    split_ifs with herased
    · refine iff_of_false (touchesFlash_ret p _ _) fun h => ?_
      simp [h] at herased
    · refine iff_of_true (touchesFlash_program p _ _ _ w) ?_
      simpa using herased

/-- A flash command gets to flash memory exactly if everything else lets it through and the
    comparison succeeds on what the buffer holds. -/
theorem touchesFlash_iff (cmd : FlashCommand) (i : Invocation) (w : σ) :
    TouchesFlash (Prog.run p.handler (cmd.callback fw i) w) ↔
      cmd.Reaches fw (p.mem w) i ∧
        strcmpEq (readDeviceClass fw i).data (cString i.config.deviceClass) = true := by
  cases cmd with
  | erase => exact touchesFlash_erase p i w
  | write =>
      refine (touchesFlash_write p i w).trans ?_
      simp only [WriteArgumentsOk, FlashCommand.Reaches, writeAddress, readDataSize]
      tauto

/-! ## The check -/

variable (fw)

/-- The comparison succeeds on the right second argument only. A string that fits is compared up
    to its first NUL; otherwise the comparison runs on the old contents of the buffer. -/
def DeviceClassChecked (i : Invocation) : Prop :=
  let deviceClass := cString i.config.deviceClass
  match secondArgument fw i.args with
  | some s =>
      if s.length < 64 then beforeNul s = deviceClass → s = deviceClass
      else strcmpEq i.locals.deviceClass deviceClass = true → s = deviceClass
  | none => strcmpEq i.locals.deviceClass deviceClass = false

variable {fw}

/-- When the comparison succeeds. -/
theorem strcmpEq_readDeviceClass (hcmp : ReadStrLaw fw.cmp) (i : Invocation) :
    (strcmpEq (readDeviceClass fw i).data (cString i.config.deviceClass) = true →
      secondArgument fw i.args = some (cString i.config.deviceClass)) ↔
    DeviceClassChecked fw i := by
  unfold DeviceClassChecked secondArgument readDeviceClass
  generalize (fw.cmp.readUinteger i.args 0).reader = r
  cases hstr : Msgpack.str? r.rest with
  | none =>
      rw [(hcmp.no_string r _ 64 hstr).2]
      simp
  | some x =>
      obtain ⟨s, rest⟩ := x
      by_cases hlen : s.length < 64
      · rw [hcmp.fits r _ 64 s rest hstr (by simpa using hlen),
          strcmpEq_blit _ _ (nul_notMem_cString _)]
        simp [hlen]
      · rw [(hcmp.too_long r _ 64 s rest hstr (by simpa using hlen)).2]
        simp [hlen]

/-- An erase or write command changes flash memory only if its second argument is the string
    `config->device_class`: this holds exactly if something else stops the command or the
    comparison runs on the argument. -/
theorem deviceClass_checked_iff (fw : Firmware) (hcmp : ReadStrLaw fw.cmp) (p : Platform σ)
    (cmd : FlashCommand) (i : Invocation) (w : σ) :
    (TouchesFlash (Prog.run p.handler (cmd.callback fw i) w) →
      secondArgument fw i.args = some (cString i.config.deviceClass)) ↔
    (cmd.Reaches fw (p.mem w) i → DeviceClassChecked fw i) := by
  rw [touchesFlash_iff, ← strcmpEq_readDeviceClass hcmp]
  tauto

/-- An erase command for the start of the application whose only argument is the address, while
    the local buffer holds the device class that an earlier command left there. -/
def eraseWithoutClass : Invocation :=
  { blankInvocation blankConfig with
    argc := 1
    args := .init (Store.ofList [0xce, 0x08, 0x01, 0x00, 0x00]) 5
    locals := { blankLocals with deviceClass := blankConfig.deviceClass } }

/-- The condition fails for it, and so does the property. -/
theorem deviceClass_checked_iff_missing :
    ¬ (TouchesFlash (Prog.run blankPlatform.handler
        (FlashCommand.erase.callback nucleoFirmware eraseWithoutClass) ()) →
      secondArgument nucleoFirmware eraseWithoutClass.args =
        some (cString eraseWithoutClass.config.deviceClass)) := by
  rw [deviceClass_checked_iff nucleoFirmware Cmp.reference_readStr]
  intro h
  have hchecked := h ⟨by decide, by decide⟩
  have hnone : secondArgument nucleoFirmware eraseWithoutClass.args = none := by decide
  simp only [DeviceClassChecked, hnone] at hchecked
  exact absurd hchecked (by decide)

/-- The sector is erased although the command has no second argument. -/
theorem erases_without_deviceClass :
    TouchesFlash (Prog.run blankPlatform.handler
      (FlashCommand.erase.callback nucleoFirmware eraseWithoutClass) ()) ∧
    secondArgument nucleoFirmware eraseWithoutClass.args ≠
      some (cString eraseWithoutClass.config.deviceClass) := by
  constructor
  · rw [touchesFlash_iff]
    exact ⟨⟨by decide, by decide⟩, by decide⟩
  · have hnone : secondArgument nucleoFirmware eraseWithoutClass.args = none := by decide
    rw [hnone]
    simp

end CanBootloader
