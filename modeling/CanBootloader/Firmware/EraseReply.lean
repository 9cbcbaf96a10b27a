/-
  The reply of an erase command.

  The loop of `command_erase_flash_page` ends when the bytes that it looks at are erased, as many
  from the address on as the device class has characters, or when there is no attempt left. What
  the reply is depends on `retry` alone: after a success with the last attempt it is 0, after no
  success it has wrapped to 255.

  * `erases_eraseLoop`: the attempts of the loop and the value of `retry`.
  * `erase_truthful_iff`: when the reply tells whether the flash page is erased.
-/
import CanBootloader.Firmware.WriteFlash

namespace CanBootloader

open Lib

/-! ## Attempts -/

variable {σ : Type} (p : Platform σ)

/-- One round of the loop: whatever the erase does. -/
def eraseAttempt (address : UInt32) (w : σ) : σ := p.lock (p.pageErase address (p.unlock w))

/-- The state after some attempts. -/
def afterAttempts (address : UInt32) (k : Nat) (w : σ) : σ := (eraseAttempt p address)^[k] w

def Call.isPageErase : Call → Bool
  | .flashWriterPageErase _ => true
  | _ => false

/-- The number of attempts in an execution. -/
def attemptCount {α : Type} (o : Prog.Outcome σ Call α) : Nat :=
  o.calls.countP fun c => c.2.isPageErase

/-- An execution with `n` attempts that returns `a` and leaves the state `t`. -/
def Erases {α : Type} (n : Nat) (code : Code α) (w : σ) (a : α) (t : σ) : Prop :=
  Prog.Returns p.handler code w a t ∧ attemptCount (Prog.run p.handler code w) = n

variable {p}

theorem Erases.ret {α : Type} (a : α) (w : σ) : Erases p 0 (Prog.ret a : Code α) w a w :=
  ⟨.ret a w, rfl⟩

theorem Erases.bind {α β : Type} {n m : Nat} {code : Code α} {f : α → Code β} {w v t : σ} {a : α}
    {b : β} (hcode : Erases p n code w a v) (hf : Erases p m (f a) v b t) :
    Erases p (n + m) (code >>= f) w b t := by
  obtain ⟨hreturns, hn⟩ := hcode
  obtain ⟨hnext, hm⟩ := hf
  refine ⟨hreturns.bind hnext, ?_⟩
  rw [attemptCount, Prog.run_bind_calls, hreturns.1, hreturns.2, List.countP_append]
  exact congrArg₂ (· + ·) hn hm

/-- Something returned on the result of an execution. -/
theorem Erases.bind_ret {α β : Type} {n : Nat} {code : Code α} {f : α → Code β} {w t : σ} {a : α}
    {b : β} (hcode : Erases p n code w a t) (hf : f a = .ret b) :
    Erases p n (code >>= f) w b t := by
  have hret : Erases p 0 (f a) t b t := by
    rw [hf]
    exact .ret b t
  exact hcode.bind hret

/-- The bytes that the loop looks at are erased after `k` further attempts. -/
def SeenErased (p : Platform σ) (address size : UInt32) (w : σ) (k : Nat) : Prop :=
  flashPageIsErased (p.mem (afterAttempts p address k w)) address size = true

theorem erases_eraseAndCheck {address size : UInt32} {w : σ} {b : Bool}
    (h : flashPageIsErased (p.mem (eraseAttempt p address w)) address size = b) :
    Erases p 1 (eraseAndCheck address size) w b (eraseAttempt p address w) := by
  subst h
  exact ⟨⟨rfl, rfl⟩, rfl⟩

variable {address size : UInt32} {retry n : Nat} {w t : σ}

/-- A round that ends the loop. -/
theorem erases_eraseLoop_erased (h : SeenErased p address size w 1) :
    Erases p 1 (eraseLoop address size retry) w (UInt8.ofNat retry)
      (afterAttempts p address 1 w) := by
  have hcheck := erases_eraseAndCheck (b := true) h
  cases retry with
  | zero => exact hcheck.bind_ret rfl
  | succ retry => exact hcheck.bind_ret rfl

/-- The last round, when it is no success. -/
theorem erases_eraseLoop_last (h : ¬ SeenErased p address size w 1) :
    Erases p 1 (eraseLoop address size 0) w 255 (afterAttempts p address 1 w) :=
  (erases_eraseAndCheck (Bool.eq_false_iff.mpr h)).bind_ret rfl

/-- A round after which there is another. -/
theorem erases_eraseLoop_next {a : UInt8} (h : ¬ SeenErased p address size w 1)
    (hloop : Erases p n (eraseLoop address size retry) (eraseAttempt p address w) a t) :
    Erases p (n + 1) (eraseLoop address size (retry + 1)) w a t := by
  rw [Nat.add_comm]
  exact (erases_eraseAndCheck (Bool.eq_false_iff.mpr h)).bind hloop

variable (p address size w)

/-- The loop ends with the first attempt that is a success, and if there is none with the last.
    Induction on the attempts that are left. -/
theorem erases_eraseLoop (retry : Nat) :
    (∃ j ≤ retry, SeenErased p address size w (j + 1) ∧
      (∀ i < j, ¬ SeenErased p address size w (i + 1)) ∧
      Erases p (j + 1) (eraseLoop address size retry) w (UInt8.ofNat (retry - j))
        (afterAttempts p address (j + 1) w)) ∨
    (∀ j ≤ retry, ¬ SeenErased p address size w (j + 1)) ∧
      Erases p (retry + 1) (eraseLoop address size retry) w 255
        (afterAttempts p address (retry + 1) w) := by
  induction retry generalizing w with
  | zero =>
      by_cases hfirst : SeenErased p address size w 1
      · exact .inl ⟨0, le_refl 0, hfirst, fun i hi => absurd hi (Nat.not_lt_zero i),
          erases_eraseLoop_erased hfirst⟩
      · refine .inr ⟨fun j hj => ?_, erases_eraseLoop_last hfirst⟩
        rwa [Nat.le_zero.mp hj]
  | succ retry ih =>
      by_cases hfirst : SeenErased p address size w 1
      · exact .inl ⟨0, Nat.zero_le _, hfirst, fun i hi => absurd hi (Nat.not_lt_zero i),
          erases_eraseLoop_erased hfirst⟩
      obtain ⟨j, hj, hseen, hbefore, hloop⟩ | ⟨hnone, hloop⟩ := ih (eraseAttempt p address w)
      · refine .inl ⟨j + 1, Nat.succ_le_succ hj, hseen, fun i hi => ?_, ?_⟩
        · cases i with
          | zero => exact hfirst
          | succ i => exact hbefore i (Nat.lt_of_succ_lt_succ hi)
        · rw [Nat.add_sub_add_right]
          exact erases_eraseLoop_next hfirst hloop
      · refine .inr ⟨fun j hj => ?_, erases_eraseLoop_next hfirst hloop⟩
        cases j with
        | zero => exact hfirst
        | succ j => exact hnone j (Nat.le_of_succ_le_succ hj)

/-! ## The reply -/

/-- All bytes of a flash page are erased. -/
def PageErased (page : Set UInt32) (m : Mem) : Prop := ∀ x ∈ page, m x = 0xFF

/-- There are at most FLASH_ERASE_RETRIES + 1 attempts, and the reply is one code, which tells
    whether the page is erased. -/
def TruthfulErase (fw : Firmware) (p : Platform σ) (page : Set UInt32) (i : Invocation) (w : σ) :
    Prop :=
  let o := Prog.run p.handler (commandEraseFlashPage fw i) w
  attemptCount o ≤ fw.flashEraseRetries.toNat + 1 ∧
    (PageErased page (p.mem o.world) → RepliesCode i flashEraseSuccess o) ∧
    (¬ PageErased page (p.mem o.world) → RepliesCode i flashEraseFailed o)

/-- Some attempt but the last one is the first to be seen as a success, or none is; and the page
    is erased after it, or after the last one. -/
def EraseSeenRight (fw : Firmware) (p : Platform σ) (page : Set UInt32) (i : Invocation) (w : σ) :
    Prop :=
  let Seen := SeenErased p (writeAddress fw i).toUInt32 (readDeviceClass fw i).size w
  let Erased := fun k => PageErased page (p.mem (afterAttempts p (writeAddress fw i).toUInt32 k w))
  let retries := fw.flashEraseRetries.toNat
  (∃ j < retries, Seen (j + 1) ∧ (∀ k < j, ¬ Seen (k + 1)) ∧ Erased (j + 1)) ∨
    (∀ j ≤ retries, ¬ Seen (j + 1)) ∧ Erased (retries + 1)

variable {p w} {fw : Firmware} (page : Set UInt32) {i : Invocation} {a : UInt8}

/-- The command behind its checks. -/
theorem erases_commandErase (hargs : EraseArgumentsOk fw i)
    (hloop : Erases p n (eraseLoop (writeAddress fw i).toUInt32 (readDeviceClass fw i).size
      fw.flashEraseRetries.toNat) w a t) :
    Erases p n (commandEraseFlashPage fw i) w (i.reply (fw.cmp.writeUint
      (if a = 0 then fw.cmp.writeUint i.out flashEraseFailed else i.out) flashEraseSuccess)) t := by
  obtain ⟨hrefused, -⟩ | ⟨-, heq⟩ := commandEraseFlashPage_cases fw i
  · exact absurd hargs hrefused
  · rw [heq]
    exact hloop.bind_ret rfl

/-- Both codes of the last case. -/
theorem written_failed_success (hwrite : WriteLaw fw.cmp) (hroom : i.out.pos + 2 ≤ i.out.size) :
    i.out.written (fw.cmp.writeUint (fw.cmp.writeUint i.out flashEraseFailed) flashEraseSuccess) =
      [13, 1] := by
  have hfailed : fw.cmp.writeUint i.out flashEraseFailed = i.out.put [13] :=
    hwrite.writeUint _ _ (le_trans (Nat.add_le_add_left (by decide) _) hroom)
  have hsuccess : fw.cmp.writeUint (i.out.put [13]) flashEraseSuccess =
      (i.out.put [13]).put [1] :=
    hwrite.writeUint _ _ hroom
  rw [hfailed, hsuccess, CmpWriter.put_put, CmpWriter.written_put]
  rfl

/-- The reply is never a failure alone. -/
theorem truthfulErase_iff (hwrite : WriteLaw fw.cmp) (hroom : i.out.pos + 2 ≤ i.out.size)
    (hn : n ≤ fw.flashEraseRetries.toNat + 1)
    (hrun : Erases p n (commandEraseFlashPage fw i) w (i.reply (fw.cmp.writeUint
      (if a = 0 then fw.cmp.writeUint i.out flashEraseFailed else i.out) flashEraseSuccess)) t) :
    TruthfulErase fw p page i w ↔ a ≠ 0 ∧ PageErased page (p.mem t) := by
  obtain ⟨⟨hvalue, hworld⟩, hcount⟩ := hrun
  unfold TruthfulErase
  simp only [hcount, hworld, hn, true_and]
  have hcode : ∀ code, RepliesCode i code (Prog.run p.handler (commandEraseFlashPage fw i) w) ↔
      i.out.written (fw.cmp.writeUint (if a = 0 then fw.cmp.writeUint i.out flashEraseFailed
        else i.out) flashEraseSuccess) = Msgpack.uint code.toNat := by
    intro code
    refine ⟨fun ⟨r, hr, hwritten⟩ => ?_, fun h => ⟨_, hvalue, h⟩⟩
    obtain rfl := Option.some.inj (hvalue.symm.trans hr)
    exact hwritten
  rw [hcode, hcode]
  by_cases hzero : a = 0
  · rw [if_pos hzero, written_failed_success hwrite hroom]
    refine iff_of_false (fun h => ?_) fun h => h.1 hzero
    by_cases herased : PageErased page (p.mem t)
    · exact absurd (h.1 herased) (by decide)
    · exact absurd (h.2 herased) (by decide)
  · rw [if_neg hzero, written_code hwrite (by omega) (by decide)]
    have hcodes : Msgpack.uint flashEraseSuccess.toNat ≠ Msgpack.uint flashEraseFailed.toNat := by
      decide
    simp only [hcodes, implies_true, true_and, ne_eq, hzero, not_false_eq_true, imp_false, not_not]

/-- There is no truthful reply for a page that no attempt erases. -/
theorem erased_of_truthful (hwrite : WriteLaw fw.cmp) (hargs : EraseArgumentsOk fw i)
    (hroom : i.out.pos + 2 ≤ i.out.size) (h : TruthfulErase fw p page i w) :
    ∃ k, PageErased page (p.mem (afterAttempts p (writeAddress fw i).toUInt32 k w)) := by
  obtain ⟨j, hj, -, -, hloop⟩ | ⟨-, hloop⟩ := erases_eraseLoop p
    (writeAddress fw i).toUInt32 (readDeviceClass fw i).size w fw.flashEraseRetries.toNat
  · have hrun := erases_commandErase hargs hloop
    exact ⟨j + 1, ((truthfulErase_iff page hwrite hroom (by omega) hrun).mp h).2⟩
  · have hrun := erases_commandErase hargs hloop
    exact ⟨_, ((truthfulErase_iff page hwrite hroom (le_refl _) hrun).mp h).2⟩

/-- The reply tells the truth exactly if the attempts are seen right. -/
theorem erase_truthful_iff (fw : Firmware) (hwrite : WriteLaw fw.cmp) (p : Platform σ)
    (page : Set UInt32) (i : Invocation) (hargs : EraseArgumentsOk fw i)
    (hroom : i.out.pos + 2 ≤ i.out.size) (w : σ) :
    TruthfulErase fw p page i w ↔ EraseSeenRight fw p page i w := by
  unfold EraseSeenRight
  simp only
  obtain ⟨j, hj, hseen, hbefore, hloop⟩ | ⟨hnone, hloop⟩ := erases_eraseLoop p
    (writeAddress fw i).toUInt32 (readDeviceClass fw i).size w fw.flashEraseRetries.toNat
  · rw [truthfulErase_iff page hwrite hroom (by omega) (erases_commandErase hargs hloop)]
    have hretries := fw.flashEraseRetries.toNat_lt
    have hretry : UInt8.ofNat (fw.flashEraseRetries.toNat - j) ≠ 0 ↔
        j < fw.flashEraseRetries.toNat := by
      rw [ne_eq, ← UInt8.toNat_inj, Msgpack.toNat_ofNat_of_lt (by omega),
        show (0 : UInt8).toNat = 0 from rfl]
      omega
    rw [hretry]
    constructor
    · intro h
      exact .inl ⟨j, h.1, hseen, hbefore, h.2⟩
    · rintro (⟨k, hk, hkseen, hkbefore, herased⟩ | ⟨hnone, -⟩)
      · obtain rfl : k = j := by
          rcases Nat.lt_trichotomy k j with hlt | heq | hlt
          · exact absurd hkseen (hbefore k hlt)
          · exact heq
          · exact absurd hseen (hkbefore j hlt)
        exact ⟨hk, herased⟩
      · exact absurd hseen (hnone j hj)
  · rw [truthfulErase_iff page hwrite hroom (le_refl _) (erases_commandErase hargs hloop)]
    constructor
    · intro h
      exact .inr ⟨hnone, h.2⟩
    · rintro (⟨k, hk, hkseen, -⟩ | ⟨-, herased⟩)
      · exact absurd hkseen (hnone k hk.le)
      · exact ⟨by decide, herased⟩

/-- Flash memory whose contents after each erase are given. -/
def scriptedPlatform (contents : Nat → Mem) : Platform Nat where
  mem := contents
  unlock := id
  lock := id
  pageErase _ k := k + 1
  pageWrite _ _ := id

/-- An erase command for the Nucleo board. -/
def eraseInvocation (address : Nat) : Invocation :=
  let deviceClass := nucleoFirmware.platformDeviceClass
  let bytes := Msgpack.uint address ++ Msgpack.strHeader deviceClass.length ++ deviceClass
  { blankInvocation blankConfig with
    argc := 2
    args := .init (Store.ofList bytes) bytes.length }

theorem eraseInvocation_ok : EraseArgumentsOk nucleoFirmware (eraseInvocation 0x08010000) :=
  ⟨⟨by decide, by decide⟩, by decide⟩

/-- The first erase succeeds. -/
theorem erase_truthful_iff_erased :
    TruthfulErase nucleoFirmware (scriptedPlatform fun _ _ => 0xFF) {x | InSector 4 x}
      (eraseInvocation 0x08010000) 0 :=
  (erase_truthful_iff nucleoFirmware Cmp.reference_write (scriptedPlatform fun _ _ => 0xFF)
    {x | InSector 4 x} (eraseInvocation 0x08010000) eraseInvocation_ok (by decide) 0).mpr
    (.inl ⟨0, by decide, by
      rw [SeenErased, flashPageIsErased_iff]
      exact fun _ _ => rfl, fun k hk => absurd hk (Nat.not_lt_zero k), fun _ _ => rfl⟩)

/-- No erase has any effect, and the reply is that of a success. -/
theorem erase_reply_without_effect :
    ¬ TruthfulErase nucleoFirmware (scriptedPlatform fun _ _ => 0) {x | InSector 4 x}
      (eraseInvocation 0x08010000) 0 := by
  intro h
  obtain ⟨k, herased⟩ := erased_of_truthful _ Cmp.reference_write eraseInvocation_ok (by decide) h
  have hbyte : (0 : UInt8) = 0xFF := herased 0x08010000 (show InSector 4 0x08010000 by decide)
  exact absurd hbyte (by decide)

end CanBootloader
