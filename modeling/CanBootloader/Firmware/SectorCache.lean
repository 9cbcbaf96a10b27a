/-
  The array `flash_sector_is_erased` of the stm32f4 writer.

  A flag says that its sector is erased, so that an erase can be skipped. The marking loop of a
  write clears the flags of the sectors that it looks at: from an address at offset `o` of its
  sector it looks at offset `o` of each sector. It passes over the last sector of the range if
  the range ends before offset `o` of it (`Overlooked`).

  * `crash_pageErase`, `crash_pageWrite`: the flags stay truthful, at every moment, unless the
    flag of an overlooked sector is set.
  * `exists_untruthful`: otherwise they need not.
  * `sector_cache_truthful_iff`: runs of erases and writes.
-/
import CanBootloader.Firmware.Stm32f4Write

namespace CanBootloader

open Lib

/-! ## Hardware that can fail -/

/-- Memory, the array, and whether an error flag is set. -/
structure StatusWorld extends FlashWorld where
  anyError : Bool

/-- The hardware, with errors. An erase sets its sector to 0xFF or reports an error. -/
def stm32f4Status (board : Stm32f4Board) : Prog.Semantics FlashOp FlashOp.Resp StatusWorld where
  done
    | .flashEraseSector sector, w, _, w' =>
        w'.sectorIsErased = w.sectorIsErased ∧ ChangesSector board sector.toNat w.mem w'.mem ∧
          (sector.toNat < board.sectorCount → w'.anyError = true ∨
            ∀ x, InSector sector.toNat x → w'.mem x = 0xFF)
    | .flashProgram address data, w, _, w' =>
        w'.sectorIsErased = w.sectorIsErased ∧ ChangesRange address data.length w.mem w'.mem
    | .sectorIsErased sector, w, r, w' =>
        w' = w ∧ (sector.toNat < board.flashSectorIndexMax → r = w.sectorIsErased sector.toNat)
    | .setSectorIsErased sector b, w, _, w' =>
        w'.mem = w.mem ∧ (sector.toNat < board.flashSectorIndexMax →
          w'.sectorIsErased = Function.update w.sectorIsErased sector.toNat b)
    | .clearErrorFlags, w, _, w' => w' = { w with anyError := false }
    | .anyErrorFlag, w, r, w' => w' = w ∧ r = w.anyError
    | .memory, w, r, w' =>
        w' = w ∧ ∀ x, board.flashBegin ≤ x → x < board.flashEnd → r x = w.mem x
    | .rebootSystem _, _, _, _ => False
    | _, w, _, w' => w' = w
  during
    | .flashEraseSector sector, w, w' =>
        w'.sectorIsErased = w.sectorIsErased ∧ ChangesSector board sector.toNat w.mem w'.mem
    | .flashProgram address data, w, w' =>
        w'.sectorIsErased = w.sectorIsErased ∧ ChangesRange address data.length w.mem w'.mem
    | _, _, _ => False

/-- The calls that leave memory and the array alone. -/
def FlashOp.Silent : FlashOp → Prop
  | .flashEraseSector _ => False
  | .flashProgram _ _ => False
  | .setSectorIsErased _ _ => False
  | _ => True

variable {board : Stm32f4Board} {α : Type}

theorem silent_done {op : FlashOp} (hop : op.Silent) {w w' : StatusWorld} {r : op.Resp}
    (h : (stm32f4Status board).done op w r w') : w'.toFlashWorld = w.toFlashWorld := by
  cases op with
  | flashEraseSector sector => exact hop.elim
  | flashProgram address data => exact hop.elim
  | setSectorIsErased sector b => exact hop.elim
  | sectorIsErased sector => exact congrArg StatusWorld.toFlashWorld h.1
  | memory => exact congrArg StatusWorld.toFlashWorld h.1
  | anyErrorFlag => exact congrArg StatusWorld.toFlashWorld h.1
  | rebootSystem arg => exact r.elim
  | flashUnlock => exact congrArg StatusWorld.toFlashWorld h
  | flashLock => exact congrArg StatusWorld.toFlashWorld h
  | enableErrorInterrupts => exact congrArg StatusWorld.toFlashWorld h
  | clearErrorFlags =>
      rw [show w' = { w with anyError := false } from h]

/-- A silent call keeps what is known of memory and the array. -/
theorem crash_silent {P C : FlashWorld → Prop} {Q : α → StatusWorld → Prop} {op : FlashOp}
    {k : op.Resp → FlashCode α} (hop : op.Silent) (hC : ∀ w, P w → C w)
    (hk : ∀ r, Prog.Crash (stm32f4Status board) (fun w => P w.toFlashWorld) (k r)
      (fun w => C w.toFlashWorld) Q) :
    Prog.Crash (stm32f4Status board) (fun w => P w.toFlashWorld) (.call op k)
      (fun w => C w.toFlashWorld) Q := by
  refine .call (fun _ w => P w.toFlashWorld) (fun w hw => hC _ hw) ?_ ?_ hk
  · intro w w' _ hduring
    cases op with
    | flashEraseSector sector => exact hop.elim
    | flashProgram address data => exact hop.elim
    | _ => exact hduring.elim
  · intro w r w' hw hdone
    rwa [silent_done hop hdone]

/-! ## Truthful flags -/

/-- A sector whose flag is set is erased. -/
def CacheTruthful (board : Stm32f4Board) (w : FlashWorld) : Prop :=
  ∀ s < board.sectorCount, w.sectorIsErased s = true → ∀ x, InSector s x → w.mem x = 0xFF

/-- Changes in sectors whose flags are not set. -/
theorem CacheTruthful.of_changes {w w' : FlashWorld} (h : CacheTruthful board w)
    (hflags : w'.sectorIsErased = w.sectorIsErased)
    (hmem : ∀ s < board.sectorCount, w.sectorIsErased s = true →
      ∀ x, InSector s x → w'.mem x = w.mem x) : CacheTruthful board w' := by
  intro s hs hflag x hx
  rw [hflags] at hflag
  rw [hmem s hs hflag x hx]
  exact h s hs hflag x hx

/-- An erase of a sector whose flag is not set. -/
theorem CacheTruthful.of_changesSector {w w' : FlashWorld} {sector : Nat}
    (h : CacheTruthful board w) (hsector : sector < board.sectorCount)
    (hclear : w.sectorIsErased sector = false) (hflags : w'.sectorIsErased = w.sectorIsErased)
    (hchange : ChangesSector board sector w.mem w'.mem) : CacheTruthful board w' := by
  refine h.of_changes hflags fun s _ hflag x hx => hchange hsector x ?_
  intro hin
  rw [hin.unique hx, hflag] at hclear
  exact absurd hclear (by simp)

/-- A program of bytes in sectors whose flags are not set. -/
theorem CacheTruthful.of_changesRange {w w' : FlashWorld} {page : UInt32} {len : Nat}
    (h : CacheTruthful board w) (hwrap : page.toNat + len < 2 ^ 32)
    (hclear : ∀ s x, InSector s x → page ≤ x → x.toNat < page.toNat + len →
      w.sectorIsErased s = false)
    (hflags : w'.sectorIsErased = w.sectorIsErased)
    (hchange : ChangesRange page len w.mem w'.mem) : CacheTruthful board w' := by
  refine h.of_changes hflags fun s _ hflag x hx => hchange x ?_
  by_contra hlt
  have hx32 := x.toNat_lt
  have hpage := page.toNat_lt
  rw [not_le, UInt32.toNat_sub] at hlt
  have hfalse := hclear s x hx (UInt32.le_iff_toNat_le.mpr (by omega)) (by omega)
  rw [hflag] at hfalse
  exact absurd hfalse (by simp)

/-- Clearing a flag. -/
theorem CacheTruthful.clear {w w' : FlashWorld} {sector : Nat} (h : CacheTruthful board w)
    (hmem : w'.mem = w.mem)
    (hflags : w'.sectorIsErased = Function.update w.sectorIsErased sector false) :
    CacheTruthful board w' := by
  intro s hs hflag x hx
  rw [hflags] at hflag
  rw [hmem]
  by_cases hsector : s = sector
  · rw [hsector, Function.update_self] at hflag
    exact absurd hflag (by simp)
  · rw [Function.update_of_ne hsector] at hflag
    exact h s hs hflag x hx

/-- Setting the flag of an erased sector. -/
theorem CacheTruthful.set {w w' : FlashWorld} {sector : Nat} (h : CacheTruthful board w)
    (herased : ∀ x, InSector sector x → w.mem x = 0xFF) (hmem : w'.mem = w.mem)
    (hflags : w'.sectorIsErased = Function.update w.sectorIsErased sector true) :
    CacheTruthful board w' := by
  intro s hs hflag x hx
  rw [hflags] at hflag
  rw [hmem]
  by_cases hsector : s = sector
  · exact herased x (hsector ▸ hx)
  · rw [Function.update_of_ne hsector] at hflag
    exact h s hs hflag x hx

/-! ## Erases -/

theorem flashAddressToSector_lt {page : UInt32} (hvalid : flashAddressIsValid board page = true)
    (hpage : page < board.flashEnd) :
    (flashAddressToSector board page).toNat < board.sectorCount := by
  have hin := inSector_flashAddressToSector hvalid hpage
  have hlow := hin.1
  rw [UInt32.lt_iff_toNat_lt, board.flashEnd_eq] at hpage
  exact sectorStart_strictMono.lt_iff_lt.mp (by omega)

theorem crash_pageErase (hflags : board.sectorCount ≤ board.flashSectorIndexMax) {page : UInt32}
    (hpage : page < board.flashEnd) :
    Prog.Crash (stm32f4Status board) (fun w => CacheTruthful board w.toFlashWorld)
      (stm32f4PageErase board page) (fun w => CacheTruthful board w.toFlashWorld)
      (fun _ w => CacheTruthful board w.toFlashWorld) := by
  unfold stm32f4PageErase
  simp only
  split_ifs with hinvalid
  · exact .ret (fun _ h => h) fun _ h => h
  have hvalid : flashAddressIsValid board page = true := by simpa using hinvalid
  have hsector := flashAddressToSector_lt hvalid hpage
  generalize flashAddressToSector board page = sector at hsector
  let Clear : FlashWorld → Prop := fun w =>
    CacheTruthful board w ∧ w.sectorIsErased sector.toNat = false
  let Erased : StatusWorld → Prop := fun w => CacheTruthful board w.toFlashWorld ∧
    ∀ x, InSector sector.toNat x → w.mem x = 0xFF
  refine .read (fun r w => r = w.sectorIsErased sector.toNat) ?_ (fun _ _ h => h)
    (fun _ h => h) fun erased => ?_
  · intro w r w' hdone
    exact ⟨hdone.1, hdone.2 (by omega)⟩
  split_ifs with herased
  · exact .ret (fun _ h => h.1) fun _ h => h.1
  refine Prog.Crash.weaken (P := fun w => Clear w.toFlashWorld) ?_ ?_ (fun _ h => h)
    fun _ _ h => h
  · refine crash_silent (by trivial) (fun _ h => h.1) fun _ =>
      crash_silent (by trivial) (fun _ h => h.1) fun _ => ?_
    refine .call (fun _ w => CacheTruthful board w.toFlashWorld ∧
      (w.anyError = true ∨ Erased w)) (fun _ h => h.1) ?_ ?_ fun _ => ?_
    · intro w w' hw hduring
      exact hw.1.of_changesSector hsector hw.2 hduring.1 hduring.2
    · intro w r w' hw ⟨hsame, hchange, hresult⟩
      have htruthful := hw.1.of_changesSector hsector hw.2 hsame hchange
      exact ⟨htruthful, (hresult hsector).imp_right fun hall => ⟨htruthful, hall⟩⟩
    refine .read (fun r w => r = w.anyError) (fun _ _ _ h => h) (fun _ _ h => h)
      (fun _ h => h.1) fun failed => ?_
    cases failed with
    | true =>
        refine Prog.Crash.weaken (P := fun w => CacheTruthful board w.toFlashWorld)
          (crash_silent (by trivial) (fun _ h => h) fun _ => .ret (fun _ h => h) fun _ h => h)
          (fun _ h => h.1.1) (fun _ h => h) fun _ _ h => h
    | false =>
        refine .call (fun _ w => CacheTruthful board w.toFlashWorld) (fun _ h => h.1.1)
          (fun _ _ _ h => h.elim) ?_ fun _ => .ret (fun _ h => h) fun _ h => h
        intro w r w' ⟨⟨_, hcases⟩, hnone⟩ ⟨hmem, hset⟩
        obtain ⟨htruthful, hall⟩ := hcases.resolve_left (by rw [← hnone]; simp)
        exact htruthful.set hall hmem (hset (by omega))
  · intro w hw
    exact ⟨hw.1, hw.2.symm.trans (Bool.eq_false_iff.mpr herased)⟩

/-! ## Writes -/

/-- The marking loop passes over sector `k`: the range begins in a sector before it, and ends in
    it, before the loop comes to look at it. -/
def Overlooked (page : UInt32) (len k : Nat) : Prop :=
  ∃ j, InSector j page ∧ j < k ∧ sectorStart k < page.toNat + len ∧
    page.toNat + len ≤ sectorStart k + (page.toNat - sectorStart j)

/-- The flags while the loop runs: those of overlooked sectors were not set, and those of the
    sectors from `j` up to `i` are cleared. -/
structure Marked (board : Stm32f4Board) (overlooked : Nat → Prop) (j i : Nat) (w : FlashWorld) :
    Prop where
  truthful : CacheTruthful board w
  overlooked_clear : ∀ k, overlooked k → w.sectorIsErased k = false
  marked_clear : ∀ s, j ≤ s → s < i → w.sectorIsErased s = false

/-- The step of the loop. -/
theorem Marked.clear {overlooked : Nat → Prop} {j i : Nat} {w w' : FlashWorld}
    (h : Marked board overlooked j i w)
    (hmem : w'.mem = w.mem)
    (hflags : w'.sectorIsErased = Function.update w.sectorIsErased i false) :
    Marked board overlooked j (i + 1) w' := by
  have hold : ∀ s, w.sectorIsErased s = false → w'.sectorIsErased s = false := by
    intro s hs
    rw [hflags, Function.update_apply]
    split_ifs
    · rfl
    · exact hs
  refine ⟨h.truthful.clear hmem hflags, fun k hk => hold k (h.overlooked_clear k hk), ?_⟩
  intro s hj hi
  rcases Nat.eq_or_lt_of_le (Nat.le_of_lt_succ hi) with rfl | hi
  · rw [hflags, Function.update_self]
  · exact hold s (h.marked_clear s hj hi)

/-- The loop at offset `o` of sector `i`. If it comes to its end, it has marked the sectors whose
    offset `o` is before `stop`. Induction as in the loop. -/
theorem crash_markSectors {stop : UInt32} (hstop : stop ≤ board.flashEnd)
    (overlooked : Nat → Prop) (j : Nat) {o : Nat} (a : ValidAddress board) :
    ∀ i, a.1.toNat = sectorStart i + o → o < sectorSize i →
      Prog.Crash (stm32f4Status board) (fun w => Marked board overlooked j i w.toFlashWorld)
      (markSectors board stop a) (fun w => CacheTruthful board w.toFlashWorld)
      (fun b w => CacheTruthful board w.toFlashWorld ∧ (b = true → ∃ k, i ≤ k ∧
        stop.toNat ≤ sectorStart k + o ∧ Marked board overlooked j k w.toFlashWorld)) := by
  induction a using markSectors.induct board stop with
  | case1 a hlt sector hmax =>
      intro i ha ho
      rw [markSectors, if_pos hlt]
      simp only
      rw [if_pos hmax]
      exact .ret (fun _ h => h.truthful) fun _ h => ⟨h.truthful, by simp⟩
  | case2 a hlt sector hmax ih =>
      intro i ha ho
      have hsector : sector.toNat = i :=
        flashAddressToSector_eq a.2 (UInt32.lt_of_lt_of_le hlt hstop) ha ho
      rw [markSectors, if_pos hlt]
      simp only
      rw [if_neg hmax]
      refine .call (fun _ w => Marked board overlooked j (i + 1) w.toFlashWorld)
        (fun _ h => h.truthful) (fun _ _ _ h => h.elim) ?_ fun _ => ?_
      · intro w r w' hw hdone
        obtain ⟨hmem, hset⟩ := hdone
        refine hw.clear hmem ?_
        rw [← hsector]
        exact hset (not_le.mp hmax)
      · split_ifs with hnext
        · obtain ⟨hanext, honext⟩ := next_inSector a.2 ha ho
          refine (ih hnext (i + 1) hanext honext).weaken (fun _ h => h) (fun _ h => h) ?_
          intro b w hw
          obtain ⟨htruthful, hend⟩ := hw
          refine ⟨htruthful, fun hb => ?_⟩
          obtain ⟨k, hk, hrest⟩ := hend hb
          exact ⟨k, by omega, hrest⟩
        · exact .ret (fun _ h => h.truthful) fun _ h => ⟨h.truthful, by simp⟩
  | case3 a hge =>
      intro i ha ho
      rw [markSectors, if_neg hge]
      rw [UInt32.lt_iff_toNat_lt] at hge
      exact .ret (fun _ h => h.truthful)
        fun _ h => ⟨h.truthful, fun _ => ⟨i, le_rfl, by omega, h⟩⟩

/-- No sector that the range touches has its flag set when the loop has come to its end. -/
theorem Marked.range_clear {page : UInt32} {len j k : Nat} {w : FlashWorld}
    (h : Marked board (Overlooked page len) j k w) (hpage : InSector j page)
    (hend : page.toNat + len ≤ sectorStart k + (page.toNat - sectorStart j)) :
    ∀ s x, InSector s x → page ≤ x → x.toNat < page.toNat + len →
      w.sectorIsErased s = false := by
  intro s x hs hx hxlen
  rw [UInt32.le_iff_toNat_le] at hx
  have hj : j ≤ s := by
    by_contra hlt
    have hmono := sectorStart_mono (show s + 1 ≤ j by omega)
    have hupper := hs.2
    have hlower := hpage.1
    rw [sectorStart_succ] at hmono
    omega
  by_cases hk : s < k
  · exact h.marked_clear s hj hk
  · have hmono := sectorStart_mono (not_lt.mp hk)
    have hlower := hs.1
    have hstart := hpage.1
    refine h.overlooked_clear s ⟨j, hpage, ?_, by omega, by omega⟩
    rcases Nat.eq_or_lt_of_le hj with rfl | hlt
    · omega
    · exact hlt

/-- A valid address lies in a sector. -/
theorem exists_inSector {a : UInt32} (hvalid : flashAddressIsValid board a = true) :
    ∃ j, InSector j a := by
  have hle := (flashAddressIsValid_iff.mp hvalid).2
  rcases Nat.eq_or_lt_of_le hle with heq | hlt
  · have hsize := sectorStart_strictMono (Nat.lt_succ_self board.sectorCount)
    rw [sectorStart_succ] at hsize
    rw [board.flashEnd_eq] at heq
    exact ⟨board.sectorCount, by omega, by omega⟩
  · exact ⟨_, inSector_flashAddressToSector hvalid (UInt32.lt_iff_toNat_lt.mpr hlt)⟩

theorem crash_pageWrite {page : UInt32} {data : List UInt8}
    (hend : page.toNat + data.length ≤ board.flashEnd.toNat) :
    Prog.Crash (stm32f4Status board) (fun w => CacheTruthful board w.toFlashWorld ∧
        ∀ k, Overlooked page data.length k → w.sectorIsErased k = false)
      (stm32f4PageWrite board page data) (fun w => CacheTruthful board w.toFlashWorld)
      (fun _ w => CacheTruthful board w.toFlashWorld) := by
  have hend32 := board.flashEnd.toNat_lt
  have hstop : (page + UInt32.ofNat data.length).toNat = page.toNat + data.length :=
    toNat_add_ofNat (by omega)
  unfold stm32f4PageWrite
  simp only
  split_ifs with hvalid
  · obtain ⟨j, hj⟩ := exists_inSector hvalid.1
    have hlower := hj.1
    have hupper := hj.2
    have hmark := crash_markSectors (UInt32.le_iff_toNat_le.mpr (hstop ▸ hend))
      (Overlooked page data.length) j ⟨page, hvalid.1⟩ j
      (show page.toNat = sectorStart j + (page.toNat - sectorStart j) by omega) (by omega)
    refine (hmark.weaken ?_ (fun _ h => h) fun _ _ h => h).bind fun marked => ?_
    · intro w hw
      exact ⟨hw.1, hw.2, fun s hs hlt => absurd hs (not_le.mpr hlt)⟩
    cases marked with
    | true =>
        let Clear : FlashWorld → Prop := fun w => CacheTruthful board w ∧
          ∀ s x, InSector s x → page ≤ x → x.toNat < page.toNat + data.length →
            w.sectorIsErased s = false
        refine Prog.Crash.weaken (P := fun w => Clear w.toFlashWorld) ?_ ?_ (fun _ h => h)
          fun _ _ h => h
        · refine crash_silent (by trivial) (fun _ h => h.1) fun _ =>
            crash_silent (by trivial) (fun _ h => h.1) fun _ => ?_
          refine .call (fun _ w => CacheTruthful board w.toFlashWorld) (fun _ h => h.1) ?_ ?_
            fun _ => ?_
          · intro w w' hw hduring
            exact hw.1.of_changesRange (by omega) hw.2 hduring.1 hduring.2
          · intro w r w' hw hdone
            exact hw.1.of_changesRange (by omega) hw.2 hdone.1 hdone.2
          refine crash_silent (by trivial) (fun _ h => h) fun failed => ?_
          split_ifs
          · exact crash_silent (by trivial) (fun _ h => h) fun _ =>
              .ret (fun _ h => h) fun _ h => h
          · exact .ret (fun _ h => h) fun _ h => h
        · intro w ⟨htruthful, hmarked⟩
          obtain ⟨k, -, hk, hclear⟩ := hmarked rfl
          rw [hstop] at hk
          exact ⟨htruthful, hclear.range_clear hj hk⟩
    | false => exact .ret (fun _ h => h.1) fun _ h => h.1
  · exact .ret (fun _ h => h.1) fun _ h => h.1

/-! ## Overlooked sectors -/

theorem lt_sectorCount {k n : Nat} (hk : sectorStart k < n) (hn : n ≤ board.flashEnd.toNat) :
    k < board.sectorCount := by
  rw [board.flashEnd_eq] at hn
  exact sectorStart_strictMono.lt_iff_lt.mp (by omega)

/-- The loop comes to its end without the flag of an overlooked sector. Induction as in the
    loop: as long as it goes on, it is before that sector. -/
theorem runs_markSectors (hflags : board.sectorCount ≤ board.flashSectorIndexMax) {stop : UInt32}
    (hstop : stop ≤ board.flashEnd) {k o : Nat} (hk : sectorStart k < stop.toNat)
    (hend : stop.toNat ≤ sectorStart k + o) (a : ValidAddress board) : ∀ (i : Nat) (w : StatusWorld),
    a.1.toNat = sectorStart i + o → o < sectorSize i →
    ∃ v, Prog.Runs (stm32f4Status board) (markSectors board stop a) w true v ∧
      v.sectorIsErased k = w.sectorIsErased k := by
  have hcount := lt_sectorCount hk (UInt32.le_iff_toNat_le.mp hstop)
  have hbefore : ∀ {b : UInt32} {i : Nat}, b < stop → b.toNat = sectorStart i + o → i < k := by
    intro b i hlt hb
    rw [UInt32.lt_iff_toNat_lt] at hlt
    exact sectorStart_strictMono.lt_iff_lt.mp (by omega)
  induction a using markSectors.induct board stop with
  | case1 a hlt sector hmax =>
      intro i w ha ho
      have hi : sector.toNat = i :=
        flashAddressToSector_eq a.2 (UInt32.lt_of_lt_of_le hlt hstop) ha ho
      have hik := hbefore hlt ha
      omega
  | case2 a hlt sector hmax ih =>
      intro i w ha ho
      have hend' := UInt32.lt_of_lt_of_le hlt hstop
      have hi : sector.toNat = i := flashAddressToSector_eq a.2 hend' ha ho
      have hik := hbefore hlt ha
      have hnext := (next_valid_iff a.2 hend' ha ho).mpr (.inr (by omega))
      obtain ⟨hanext, honext⟩ := next_inSector a.2 ha ho
      rw [markSectors, if_pos hlt]
      simp only
      rw [if_neg hmax, dif_pos hnext]
      let u : StatusWorld :=
        { w with sectorIsErased := Function.update w.sectorIsErased sector.toNat false }
      obtain ⟨v, hrun, hflag⟩ := ih hnext (i + 1) u hanext honext
      refine ⟨v, ⟨(), u, ⟨rfl, fun _ => rfl⟩, hrun⟩, ?_⟩
      rw [hflag]
      exact Function.update_of_ne (by omega) _ _
  | case3 a hge =>
      intro i w _ _
      rw [markSectors, if_neg hge]
      exact ⟨w, ⟨rfl, rfl⟩, rfl⟩

/-- A range that overlooks a sector does not begin where a sector does. -/
theorem Overlooked.bounds {page : UInt32} {len k : Nat} (h : Overlooked page len k) :
    0x08000000 < page.toNat ∧ page.toNat < sectorStart k ∧ sectorStart k < page.toNat + len := by
  obtain ⟨j, hj, hjk, hin, hover⟩ := h
  have hzero : sectorStart 0 = 0x08000000 := rfl
  have hstart := sectorStart_mono (Nat.zero_le j)
  have hmono := sectorStart_mono (Nat.succ_le_of_lt hjk)
  have hupper := hj.2
  rw [sectorStart_succ] at hmono
  omega

/-- A write that overlooks a sector whose flag is set can leave it set over a programmed byte,
    the first one of the sector. -/
theorem exists_untruthful (hflags : board.sectorCount ≤ board.flashSectorIndexMax) {page : UInt32}
    {data : List UInt8} (hend : page.toNat + data.length ≤ board.flashEnd.toNat) {k : Nat}
    (hk : Overlooked page data.length k) {w : StatusWorld} (hflag : w.sectorIsErased k = true) :
    ∃ w', Prog.Runs (stm32f4Status board) (stm32f4PageWrite board page data) w () w' ∧
      ¬ CacheTruthful board w'.toFlashWorld := by
  obtain ⟨hbegin, hbefore, hin⟩ := hk.bounds
  obtain ⟨j, hj, -, -, hover⟩ := hk
  have hend32 := board.flashEnd.toNat_lt
  have hlower := hj.1
  have hupper := hj.2
  have hstop : (page + UInt32.ofNat data.length).toNat = page.toNat + data.length :=
    toNat_add_ofNat (by omega)
  have hvalid : flashAddressIsValid board page = true ∧
      flashAddressIsValid board (page + UInt32.ofNat data.length) = true := by
    rw [flashAddressIsValid_iff, flashAddressIsValid_iff, hstop]
    omega
  have hnat : (UInt32.ofNat (sectorStart k)).toNat = sectorStart k :=
    UInt32.toNat_ofNat_of_lt' (show sectorStart k < 2 ^ 32 by omega)
  obtain ⟨u, hmark, hset⟩ := runs_markSectors hflags
    (UInt32.le_iff_toNat_le.mpr (hstop ▸ hend)) (hstop ▸ hin) (hstop ▸ hover) ⟨page, hvalid.1⟩ j w
    (show page.toNat = sectorStart j + (page.toNat - sectorStart j) by omega) (by omega)
  let v : StatusWorld :=
    ⟨⟨Function.update u.mem (UInt32.ofNat (sectorStart k)) 0, u.sectorIsErased⟩, false⟩
  have hchange : ChangesRange page data.length u.mem v.mem := by
    intro x hx
    refine Function.update_of_ne ?_ _ _
    rintro rfl
    rw [UInt32.toNat_sub, hnat] at hx
    omega
  have hrun : Prog.Runs (stm32f4Status board) (stm32f4PageWrite board page data) w () v := by
    unfold stm32f4PageWrite
    simp only
    rw [dif_pos hvalid]
    refine hmark.bind ?_
    exact ⟨(), u, rfl, (), { u with anyError := false }, rfl, (), v, ⟨rfl, hchange⟩, false, v,
      ⟨rfl, rfl⟩, rfl, rfl⟩
  refine ⟨v, hrun, ?_⟩
  intro htruthful
  have hsize := sectorStart_strictMono (Nat.lt_succ_self k)
  rw [sectorStart_succ] at hsize
  have hfirst : InSector k (UInt32.ofNat (sectorStart k)) := ⟨hnat.ge, by omega⟩
  have hbyte := htruthful k (lt_sectorCount hin hend) (hset.trans hflag) _ hfirst
  have hzero : v.mem (UInt32.ofNat (sectorStart k)) = 0 := Function.update_self ..
  rw [hzero] at hbyte
  exact absurd hbyte (by decide)

/-! ## Runs -/

/-- A call of `flash_writer_page_erase` or `flash_writer_page_write`. -/
inductive FlashCall where
  | erase (page : UInt32)
  | write (page : UInt32) (data : List UInt8)

def FlashCall.code (board : Stm32f4Board) : FlashCall → FlashCode Unit
  | erase page => stm32f4PageErase board page
  | write page data => stm32f4PageWrite board page data

/-- The bytes that the call is about are in flash memory. -/
def FlashCall.InFlash (board : Stm32f4Board) : FlashCall → Prop
  | erase page => board.flashBegin ≤ page ∧ page < board.flashEnd
  | write page data =>
      board.flashBegin ≤ page ∧ page.toNat + data.length ≤ board.flashEnd.toNat

/-- The call is not a write that overlooks a sector whose flag is set. -/
def FlashCall.Safe (w : FlashWorld) : FlashCall → Prop
  | erase _ => True
  | write page data => ∀ k, Overlooked page data.length k → w.sectorIsErased k = false

/-- Where calls lead from cleared flags, if each of them is allowed in the state before it. -/
inductive CacheRun (board : Stm32f4Board) (Allowed : FlashWorld → FlashCall → Prop) :
    StatusWorld → Prop where
  | start {w : StatusWorld} (h : ∀ s, w.sectorIsErased s = false) : CacheRun board Allowed w
  | call {w w' : StatusWorld} (call : FlashCall) (hrun : CacheRun board Allowed w)
      (hin : call.InFlash board) (hallowed : Allowed w.toFlashWorld call)
      (hcall : Prog.Runs (stm32f4Status board) (call.code board) w () w') :
      CacheRun board Allowed w'

theorem crash_flashCall (hflags : board.sectorCount ≤ board.flashSectorIndexMax)
    {call : FlashCall} (hin : call.InFlash board) :
    Prog.Crash (stm32f4Status board)
      (fun w => CacheTruthful board w.toFlashWorld ∧ call.Safe w.toFlashWorld) (call.code board)
      (fun w => CacheTruthful board w.toFlashWorld)
      (fun _ w => CacheTruthful board w.toFlashWorld) := by
  cases call with
  | erase page =>
      exact (crash_pageErase hflags hin.2).weaken (fun _ h => h.1) (fun _ h => h) fun _ _ h => h
  | write page data => exact crash_pageWrite hin.2

theorem CacheRun.truthful (hflags : board.sectorCount ≤ board.flashSectorIndexMax)
    {w : StatusWorld} (h : CacheRun board (fun w call => call.Safe w) w) :
    CacheTruthful board w.toFlashWorld := by
  induction h with
  | start h =>
      intro s _ hflag
      rw [h s] at hflag
      exact absurd hflag (by simp)
  | call call _ hin hsafe hcall ih =>
      exact (crash_flashCall hflags hin _ ⟨ih, hsafe⟩).2 () _ hcall

/-- On the Nucleo board, the flags are truthful in every state that a run reaches in which no
    write overlooks a sector whose flag is set; and of the calls that can follow, those are the
    ones at every moment of which the flags are sure to be truthful. -/
theorem sector_cache_truthful_iff (w : StatusWorld)
    (hrun : CacheRun nucleoBoardStm32f446reFlash (fun w call => call.Safe w) w) :
    CacheTruthful nucleoBoardStm32f446reFlash w.toFlashWorld ∧
      ∀ call : FlashCall, call.InFlash nucleoBoardStm32f446reFlash →
        ((∀ v, Prog.Visible (stm32f4Status nucleoBoardStm32f446reFlash)
          (call.code nucleoBoardStm32f446reFlash) w v →
          CacheTruthful nucleoBoardStm32f446reFlash v.toFlashWorld) ↔
        call.Safe w.toFlashWorld) := by
  have htruthful := hrun.truthful le_rfl
  refine ⟨htruthful, ?_⟩
  intro call hin
  constructor
  · intro hvisible
    cases call with
    | erase page => trivial
    | write page data =>
        intro k hk
        by_contra hflag
        obtain ⟨v, hrun, huntruthful⟩ := exists_untruthful le_rfl hin.2 hk
          (Bool.not_eq_false _ ▸ hflag)
        exact huntruthful (hvisible v hrun.visible)
  · intro hsafe v hv
    exact (crash_flashCall le_rfl hin w ⟨htruthful, hsafe⟩).1 v hv

/-- The hardware when no operation fails. -/
def statusIdeal : (op : FlashOp) → StatusWorld → Option (op.Resp × StatusWorld)
  | .anyErrorFlag, w => some (w.anyError, w)
  | .clearErrorFlags, w => some ((), { w with anyError := false })
  | op, w => (stm32f4Ideal op w.toFlashWorld).map fun o => (o.1, ⟨o.2, w.anyError⟩)

theorem statusIdeal_done (op : FlashOp) (w : StatusWorld) (r : op.Resp) (v : StatusWorld)
    (h : statusIdeal op w = some (r, v)) : (stm32f4Status board).done op w r v := by
  cases op with
  | rebootSystem arg => exact r.elim
  | flashEraseSector sector =>
      obtain ⟨-, rfl⟩ := Prod.mk.inj (Option.some.inj h)
      exact ⟨rfl, fun _ x hx => if_neg hx, fun _ => .inr fun x hx => if_pos hx⟩
  | flashProgram address data =>
      obtain ⟨-, rfl⟩ := Prod.mk.inj (Option.some.inj h)
      exact ⟨rfl, fun x hx => Mem.blit_other w.mem hx⟩
  | setSectorIsErased sector b =>
      obtain ⟨-, rfl⟩ := Prod.mk.inj (Option.some.inj h)
      exact ⟨rfl, fun _ => rfl⟩
  | sectorIsErased sector =>
      obtain ⟨rfl, rfl⟩ := Prod.mk.inj (Option.some.inj h)
      exact ⟨rfl, fun _ => rfl⟩
  | memory =>
      obtain ⟨rfl, rfl⟩ := Prod.mk.inj (Option.some.inj h)
      exact ⟨rfl, fun _ _ _ => rfl⟩
  | anyErrorFlag =>
      obtain ⟨rfl, rfl⟩ := Prod.mk.inj (Option.some.inj h)
      exact ⟨rfl, rfl⟩
  | _ => exact (Prod.mk.inj (Option.some.inj h)).2.symm

theorem statusIdeal_runs {α : Type} {p : FlashCode α} {w v : StatusWorld} {a : α}
    (h : Prog.Returns statusIdeal p w a v) : Prog.Runs (stm32f4Status board) p w a v :=
  h.runs statusIdeal_done

/-- Flash memory full of zeros, with all flags false. -/
def zeroStatus : StatusWorld := ⟨⟨fun _ => 0, fun _ => false⟩, false⟩

/-- After an erase of sector 5. -/
def sector5Erased : StatusWorld :=
  ⟨⟨fun x => if InSector 5 x then 0xFF else 0, Function.update (fun _ => false) 5 true⟩, false⟩

theorem cacheRun_sector5Erased {Allowed : FlashWorld → FlashCall → Prop}
    (hallowed : Allowed zeroStatus.toFlashWorld (.erase 0x08020000)) :
    CacheRun nucleoBoardStm32f446reFlash Allowed sector5Erased := by
  have hreturns : Prog.Returns statusIdeal
      (stm32f4PageErase nucleoBoardStm32f446reFlash 0x08020000) zeroStatus () sector5Erased :=
    ⟨rfl, rfl⟩
  exact .call (.erase 0x08020000) (.start fun _ => rfl) ⟨by decide, by decide⟩ hallowed
    (statusIdeal_runs hreturns)

/-- The flag of sector 5 is set, and says the truth. -/
theorem sector_cache_truthful_iff_erased : sector5Erased.sectorIsErased 5 = true ∧
    CacheTruthful nucleoBoardStm32f446reFlash sector5Erased.toFlashWorld :=
  ⟨rfl, (sector_cache_truthful_iff sector5Erased (cacheRun_sector5Erased trivial)).1⟩

/-- The marking loop of a write of two bytes, to the end of sector 4 and the start of
    sector 5. -/
theorem pageWrite_over_sector5 : stm32f4PageWrite nucleoBoardStm32f446reFlash 0x0801FFFF [0, 0] =
    .call (.setSectorIsErased 4 false) fun _ =>
    .call .enableErrorInterrupts fun _ =>
    .call .clearErrorFlags fun _ =>
    .call (.flashProgram 0x0801FFFF [0, 0]) fun _ =>
    .call .anyErrorFlag fun failed =>
      if failed then .call .clearErrorFlags .ret else .ret () := by
  have hmark : ∀ h, markSectors nucleoBoardStm32f446reFlash 0x08020001 ⟨0x0801FFFF, h⟩ =
      .call (.setSectorIsErased 4 false) fun _ => .ret true := by
    intro h
    have hnext : ¬ 0x0801FFFF + flashGetSectorSize nucleoBoardStm32f446reFlash 0x0801FFFF <
        (0x08020001 : UInt32) := by decide
    rw [markSectors, if_pos (show (0x0801FFFF : UInt32) < 0x08020001 by decide)]
    simp only
    rw [if_neg (by decide), dif_pos (by decide), markSectors, if_neg hnext]
    rfl
  unfold stm32f4PageWrite
  simp only
  rw [dif_pos (by decide)]
  exact congrArg (· >>= _) (hmark _)

/-- It leaves the flag of sector 5 set. -/
theorem sector_cache_untruthful : ∃ w : StatusWorld,
    CacheRun nucleoBoardStm32f446reFlash (fun _ _ => True) w ∧
    ¬ CacheTruthful nucleoBoardStm32f446reFlash w.toFlashWorld := by
  let w : StatusWorld := ⟨⟨sector5Erased.mem.blit 0x0801FFFF [0, 0],
    Function.update sector5Erased.sectorIsErased 4 false⟩, false⟩
  have hreturns : Prog.Returns statusIdeal
      (stm32f4PageWrite nucleoBoardStm32f446reFlash 0x0801FFFF [0, 0]) sector5Erased () w := by
    rw [pageWrite_over_sector5]
    exact ⟨rfl, rfl⟩
  refine ⟨w, .call (.write 0x0801FFFF [0, 0]) (cacheRun_sector5Erased trivial)
    ⟨by decide, by decide⟩ trivial (statusIdeal_runs hreturns), ?_⟩
  intro h
  exact absurd (h 5 (by decide) rfl 0x08020000 (by decide)) (by decide)

end CanBootloader
