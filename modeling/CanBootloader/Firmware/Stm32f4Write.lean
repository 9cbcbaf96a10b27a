/-
  What `flash_writer_page_write` of the stm32f4 writer stores when the hardware does not fail.

  The marking loop steps by sector sizes from an address that need not begin a sector, and the
  function returns without programming where a step ends behind flash memory. `Markable` says
  when it does not, and `returns_stm32f4PageWrite` what is stored.
-/
import CanBootloader.Firmware.Stm32f4

namespace CanBootloader

open Lib

variable {board : Stm32f4Board}

/-! ## Hardware without faults -/

/-- The hardware when no operation fails. -/
def stm32f4Ideal : (op : FlashOp) → FlashWorld → Option (op.Resp × FlashWorld)
  | .anyErrorFlag, w => some (false, w)
  | .flashEraseSector sector, w =>
      some ((), { w with mem := fun x => if InSector sector.toNat x then 0xFF else w.mem x })
  | .flashProgram address data, w => some ((), { w with mem := w.mem.blit address data })
  | .sectorIsErased sector, w => some (w.sectorIsErased sector.toNat, w)
  | .setSectorIsErased sector b, w =>
      some ((), { w with sectorIsErased := Function.update w.sectorIsErased sector.toNat b })
  | .memory, w => some (w.mem, w)
  | .rebootSystem _, _ => none
  | .flashUnlock, w => some ((), w)
  | .flashLock, w => some ((), w)
  | .enableErrorInterrupts, w => some ((), w)
  | .clearErrorFlags, w => some ((), w)

/-- Not to fail is one of the things that the hardware can do. -/
theorem stm32f4Ideal_done (op : FlashOp) (w : FlashWorld) (r : op.Resp) (v : FlashWorld)
    (h : stm32f4Ideal op w = some (r, v)) : (stm32f4Hardware board).done op w r v := by
  cases op with
  | rebootSystem arg => exact r.elim
  | flashEraseSector sector =>
      obtain ⟨-, rfl⟩ := Prod.mk.inj (Option.some.inj h)
      exact ⟨rfl, fun _ x hx => if_neg hx, fun _ x hx => if_pos hx⟩
  | flashProgram address data =>
      obtain ⟨-, rfl⟩ := Prod.mk.inj (Option.some.inj h)
      exact ⟨rfl, fun x hx => Mem.blit_other w.mem hx⟩
  | setSectorIsErased sector b =>
      obtain ⟨-, rfl⟩ := Prod.mk.inj (Option.some.inj h)
      exact ⟨rfl, fun _ => rfl⟩
  | sectorIsErased sector =>
      obtain ⟨rfl, rfl⟩ := Prod.mk.inj (Option.some.inj h)
      exact ⟨rfl, fun _ => rfl⟩
  | memory =>
      obtain ⟨rfl, rfl⟩ := Prod.mk.inj (Option.some.inj h)
      exact ⟨rfl, fun _ _ _ => rfl⟩
  | _ => exact (Prod.mk.inj (Option.some.inj h)).2.symm

/-- So what a program does on it is an execution on the hardware. -/
theorem runs_of_returns {α : Type} {p : FlashCode α} {w v : FlashWorld} {a : α}
    (h : Prog.Returns stm32f4Ideal p w a v) : Prog.Runs (stm32f4Hardware board) p w a v :=
  h.runs stm32f4Ideal_done

/-! ## Sectors -/

theorem sectorStart_succ (sector : Nat) :
    sectorStart (sector + 1) = sectorStart sector + sectorSize sector := by
  unfold sectorStart sectorSize
  split_ifs <;> omega

/-- No sector is smaller than the one before it. -/
theorem sectorSize_le_succ (sector : Nat) : sectorSize sector ≤ sectorSize (sector + 1) := by
  unfold sectorSize
  split_ifs <;> omega

theorem sectorStart_strictMono : StrictMono sectorStart := by
  refine strictMono_nat_of_lt_succ fun sector => ?_
  rw [sectorStart_succ]
  unfold sectorSize
  split_ifs <;> omega

/-- An address lies in one sector. -/
theorem InSector.unique {i j : Nat} {x : UInt32} (hi : InSector i x) (hj : InSector j x) :
    i = j :=
  sectorStart_strictMono.injective (le_antisymm (sectorStart_le hj hi.1) (sectorStart_le hi hj.1))

/-- The sector computed for offset `o` of a sector. -/
theorem flashAddressToSector_eq {a : UInt32} {sector o : Nat}
    (hvalid : flashAddressIsValid board a = true) (hlt : a < board.flashEnd)
    (ha : a.toNat = sectorStart sector + o) (ho : o < sectorSize sector) :
    (flashAddressToSector board a).toNat = sector := by
  have hin : InSector sector a := ⟨by omega, by omega⟩
  exact (inSector_flashAddressToSector hvalid hlt).unique hin

theorem flashGetSectorSize_of_inSector {a : UInt32} {sector : Nat}
    (hvalid : flashAddressIsValid board a = true) (h : InSector sector a) :
    (flashGetSectorSize board a).toNat = sectorSize sector := by
  unfold flashGetSectorSize
  simp only [hvalid, Bool.not_true, Bool.false_eq_true, if_false, UInt32.lt_iff_toNat_lt,
    UInt32.reduceToNat]
  unfold InSector sectorStart sectorSize at h
  unfold sectorSize
  split_ifs at h ⊢ <;> first | rfl | omega

/-! ## The marking loop -/

/-- From offset `o` of sector `j` on, the marking loop finds a flag for each sector that it
    looks at, and never steps over the end of flash memory. -/
def Markable (board : Stm32f4Board) (j o stop : Nat) : Prop :=
  ∀ i, j ≤ i → sectorStart i + o < stop →
    i < board.flashSectorIndexMax ∧ (o = 0 ∨ i + 1 < board.sectorCount)

theorem markable_of_le {j o stop : Nat} (h : stop ≤ sectorStart j + o) :
    Markable board j o stop := by
  intro i hi hlt
  have hmono := sectorStart_mono hi
  omega

/-- Where the range begins with a sector, the loop needs flags only. -/
theorem markable_start {j stop : Nat} (h : stop ≤ sectorStart board.flashSectorIndexMax) :
    Markable board j 0 stop := by
  intro i _ hlt
  exact ⟨sectorStart_strictMono.lt_iff_lt.mp (by omega), .inl rfl⟩

theorem markable_succ_iff {j o stop : Nat} (h : sectorStart j + o < stop) :
    Markable board j o stop ↔
      (j < board.flashSectorIndexMax ∧ (o = 0 ∨ j + 1 < board.sectorCount)) ∧
        Markable board (j + 1) o stop := by
  constructor
  · intro hmark
    exact ⟨hmark j le_rfl h, fun i hi => hmark i (by omega)⟩
  · intro ⟨hj, hmark⟩ i hi hlt
    rcases Nat.eq_or_lt_of_le hi with rfl | hi
    · exact hj
    · exact hmark i hi hlt

/-- The step of the loop: it stays at its offset, one sector further. -/
theorem next_inSector {j o : Nat} {a : UInt32} (hvalid : flashAddressIsValid board a = true)
    (ha : a.toNat = sectorStart j + o) (ho : o < sectorSize j) :
    (a + flashGetSectorSize board a).toNat = sectorStart (j + 1) + o ∧ o < sectorSize (j + 1) := by
  have hend := flashEnd_toNat_le board
  have hle := (flashAddressIsValid_iff.mp hvalid).2
  have hsize := flashGetSectorSize_pos hvalid
  have hin : InSector j a := ⟨by omega, by omega⟩
  have heq := flashGetSectorSize_of_inSector hvalid hin
  refine ⟨?_, lt_of_lt_of_le ho (sectorSize_le_succ j)⟩
  rw [UInt32.toNat_add, sectorStart_succ]
  omega

/-- The step stays in flash memory, or the address is at the start of the last sector and the
    step ends where flash memory does. -/
theorem next_valid_iff {j o : Nat} {a : UInt32} (hvalid : flashAddressIsValid board a = true)
    (hlt : a < board.flashEnd) (ha : a.toNat = sectorStart j + o) (ho : o < sectorSize j) :
    flashAddressIsValid board (a + flashGetSectorSize board a) = true ↔
      o = 0 ∨ j + 1 < board.sectorCount := by
  obtain ⟨hnext, honext⟩ := next_inSector hvalid ha ho
  have hlow := (flashAddressIsValid_iff.mp hvalid).1
  have hstep := toNat_lt_next hvalid
  rw [UInt32.lt_iff_toNat_lt, board.flashEnd_eq] at hlt
  have hj : j < board.sectorCount := sectorStart_strictMono.lt_iff_lt.mp (by omega)
  rw [flashAddressIsValid_iff, hnext, board.flashEnd_eq]
  constructor
  · intro ⟨_, hle⟩
    by_contra hnot
    rw [not_or, not_lt] at hnot
    have hcount := sectorStart_mono hnot.2
    omega
  · intro hcases
    refine ⟨by omega, ?_⟩
    rcases hcases with rfl | hmore
    · exact sectorStart_mono hj
    · have hmono := sectorStart_mono (show j + 1 + 1 ≤ board.sectorCount from hmore)
      rw [sectorStart_succ] at hmono
      omega

/-- The loop leaves memory alone, and comes to its end if and only if the range is markable.
    Induction as in the loop: one sector further at the same offset. -/
theorem returns_markSectors (stop : UInt32) (a : ValidAddress board) : ∀ w : FlashWorld,
    ∃ (b : Bool) (v : FlashWorld),
      Prog.Returns stm32f4Ideal (markSectors board stop a) w b v ∧ v.mem = w.mem ∧
      ∀ j o, stop ≤ board.flashEnd → a.1.toNat = sectorStart j + o → o < sectorSize j →
        (b = true ↔ Markable board j o stop.toNat) := by
  induction a using markSectors.induct board stop with
  | case1 a hlt sector hmax =>
      intro w
      rw [markSectors, if_pos hlt]
      simp only
      rw [if_pos hmax]
      refine ⟨false, w, .ret false w, rfl, ?_⟩
      intro j o hstop ha ho
      have hj : sector.toNat = j :=
        flashAddressToSector_eq a.2 (UInt32.lt_of_lt_of_le hlt hstop) ha ho
      rw [UInt32.lt_iff_toNat_lt, ha] at hlt
      refine iff_of_false (by simp) fun hmark => ?_
      have hflag := (hmark j le_rfl hlt).1
      rw [← hj] at hflag
      exact absurd hflag (not_lt.mpr hmax)
  | case2 a hlt sector hmax ih =>
      intro w
      rw [markSectors, if_pos hlt]
      simp only
      rw [if_neg hmax]
      let w' : FlashWorld :=
        { w with sectorIsErased := Function.update w.sectorIsErased sector.toNat false }
      have hset : stm32f4Ideal (.setSectorIsErased sector false) w = some ((), w') := rfl
      -- this round of the loop is the condition on the sector
      have hround : ∀ j o, stop ≤ board.flashEnd → a.1.toNat = sectorStart j + o →
          o < sectorSize j → j < board.flashSectorIndexMax ∧
          (flashAddressIsValid board (a.1 + flashGetSectorSize board a.1) = true ↔
            o = 0 ∨ j + 1 < board.sectorCount) := by
        intro j o hstop ha ho
        have hend := UInt32.lt_of_lt_of_le hlt hstop
        refine ⟨?_, next_valid_iff a.2 hend ha ho⟩
        rw [← flashAddressToSector_eq a.2 hend ha ho]
        exact not_le.mp hmax
      rw [UInt32.lt_iff_toNat_lt] at hlt
      split_ifs with hnext
      · obtain ⟨b, v, hrun, hmem, hiff⟩ := ih hnext w'
        refine ⟨b, v, .call hset hrun, hmem, ?_⟩
        intro j o hstop ha ho
        obtain ⟨hflag, hstep⟩ := hround j o hstop ha ho
        obtain ⟨hanext, honext⟩ := next_inSector a.2 ha ho
        have hsplit : Markable board j o stop.toNat ↔ _ := markable_succ_iff (ha ▸ hlt)
        rw [hiff (j + 1) o hstop hanext honext, hsplit]
        exact (and_iff_right ⟨hflag, hstep.mp hnext⟩).symm
      · refine ⟨false, w', .call hset (.ret false w'), rfl, ?_⟩
        intro j o hstop ha ho
        obtain ⟨hflag, hstep⟩ := hround j o hstop ha ho
        refine iff_of_false (by simp) fun hmark => ?_
        exact hnext (hstep.mpr (hmark j le_rfl (ha ▸ hlt)).2)
  | case3 a hge =>
      intro w
      rw [markSectors, if_neg hge]
      refine ⟨true, w, .ret true w, rfl, ?_⟩
      intro j o _ ha _
      refine iff_of_true rfl (markable_of_le ?_)
      rw [UInt32.lt_iff_toNat_lt] at hge
      omega

/-! ## Writing -/

/-- The marking loop of a write of `len` bytes comes to its end. -/
def WriteMarkable (board : Stm32f4Board) (page : UInt32) (len : Nat) : Prop :=
  let j := (flashAddressToSector board page).toNat
  Markable board j (page.toNat - sectorStart j) (page.toNat + len)

/-- A write stores its data or nothing; in flash memory, its data if and only if the marking
    loop comes to its end. -/
theorem returns_stm32f4PageWrite (board : Stm32f4Board) (page : UInt32) (data : List UInt8)
    (w : FlashWorld) :
    ∃ (stored : Bool) (v : FlashWorld),
      Prog.Returns stm32f4Ideal (stm32f4PageWrite board page data) w () v ∧
      v.mem = (if stored = true then w.mem.blit page data else w.mem) ∧
      (board.app ≤ page → page < board.flashEnd →
        page.toNat + data.length ≤ board.flashEnd.toNat →
        (stored = true ↔ WriteMarkable board page data.length)) := by
  have hbegin := UInt32.lt_iff_toNat_lt.mp (flashBegin_lt_app board)
  rw [board.flashBegin_eq] at hbegin
  have hend := board.flashEnd.toNat_lt
  unfold stm32f4PageWrite
  simp only
  split_ifs with hvalid
  · obtain ⟨marked, u, hmark, hmem, hiff⟩ := returns_markSectors
      (page + UInt32.ofNat data.length) ⟨page, hvalid.1⟩ w
    have hcond : board.app ≤ page → page < board.flashEnd →
        page.toNat + data.length ≤ board.flashEnd.toNat →
        (marked = true ↔ WriteMarkable board page data.length) := by
      intro _ hpage hlen
      have hin := inSector_flashAddressToSector hvalid.1 hpage
      have hstop : (page + UInt32.ofNat data.length).toNat = page.toNat + data.length :=
        toNat_add_ofNat (by omega)
      rw [WriteMarkable, ← hstop]
      refine hiff _ _ ?_ (Nat.add_sub_cancel' hin.1).symm ?_
      · rw [UInt32.le_iff_toNat_le, hstop]
        exact hlen
      · have hlower := hin.1
        have hupper := hin.2
        omega
    cases marked with
    | true =>
        refine ⟨true, { u with mem := u.mem.blit page data }, hmark.bind ?_, ?_, hcond⟩
        · exact .call rfl (.call rfl (.call rfl (.call rfl (.ret () _))))
        · rw [if_pos rfl, hmem]
    | false => exact ⟨false, u, hmark.bind (.ret () _), hmem, hcond⟩
  · refine ⟨false, w, .ret () w, rfl, ?_⟩
    intro happ hpage hlen
    -- both addresses are valid
    refine absurd ⟨?_, ?_⟩ hvalid
    · rw [flashAddressIsValid_iff]
      rw [UInt32.le_iff_toNat_le] at happ
      rw [UInt32.lt_iff_toNat_lt] at hpage
      exact ⟨lt_of_lt_of_le hbegin happ, hpage.le⟩
    · rw [flashAddressIsValid_iff, toNat_add_ofNat (by omega)]
      rw [UInt32.le_iff_toNat_le] at happ
      simp only [UInt32.reduceToNat] at hbegin
      omega

/-! ## The end of flash memory -/

/-- If every sector has a flag, only a step from within the last sector ends the loop: it begins
    at the start of a sector, or the range ends before the loop comes to the last one. -/
theorem writeMarkable_iff (hflags : board.sectorCount ≤ board.flashSectorIndexMax) (page : UInt32)
    (len last sector : Nat) (hlast : board.sectorCount = last + 1) (hsector : InSector sector page)
    (hlow : board.flashBegin < page) (hpage : page < board.flashEnd)
    (hend : page.toNat + len ≤ board.flashEnd.toNat) :
    WriteMarkable board page len ↔ page.toNat = sectorStart sector ∨
      page.toNat + len ≤ sectorStart last + (page.toNat - sectorStart sector) := by
  have hvalid : flashAddressIsValid board page = true := by
    rw [flashAddressIsValid_iff]
    rw [UInt32.lt_iff_toNat_lt, board.flashBegin_eq] at hlow
    exact ⟨hlow, (UInt32.lt_iff_toNat_lt.mp hpage).le⟩
  have hj := (inSector_flashAddressToSector hvalid hpage).unique hsector
  have hstart := hsector.1
  rw [board.flashEnd_eq] at hend
  rw [UInt32.lt_iff_toNat_lt, board.flashEnd_eq] at hpage
  have hle : sector < board.sectorCount := sectorStart_strictMono.lt_iff_lt.mp (by omega)
  unfold WriteMarkable
  simp only [hj]
  constructor
  · intro hmark
    by_contra hnot
    rw [not_or, not_le] at hnot
    have hstep := (hmark last (by omega) hnot.2).2
    omega
  · rintro (heq | hle')
    · rw [heq, Nat.sub_self]
      exact markable_start (by have := sectorStart_mono hflags; omega)
    · intro i _ hlt
      have hi : i < last := sectorStart_strictMono.lt_iff_lt.mp (by omega)
      exact ⟨by omega, .inr (by omega)⟩

/-- A write into an erased range of flash memory changes no other byte. It stores its data if and
    only if there is nothing to change or the marking loop comes to its end. -/
theorem returns_pageWrite_reads (page : UInt32) (data : List UInt8) (w : FlashWorld)
    (happ : board.app ≤ page) (hpage : page < board.flashEnd)
    (hend : page.toNat + data.length ≤ board.flashEnd.toNat)
    (herased : ∀ b ∈ w.mem.read page data.length, b = 0xFF) :
    ∃ v, Prog.Returns stm32f4Ideal (stm32f4PageWrite board page data) w () v ∧
      (∀ x, data.length ≤ (x - page).toNat → v.mem x = w.mem x) ∧
      (v.mem.read page data.length = data ↔
        (∀ b ∈ data, b = 0xFF) ∨ WriteMarkable board page data.length) := by
  have hend32 := board.flashEnd.toNat_lt
  obtain ⟨stored, v, hreturns, hmem, hiff⟩ := returns_stm32f4PageWrite board page data w
  refine ⟨v, hreturns, ?_⟩
  rw [hmem, ← hiff happ hpage hend]
  cases stored with
  | true =>
      rw [if_pos rfl]
      exact ⟨fun x hx => Mem.blit_other _ hx,
        iff_of_true (Mem.read_blit _ _ (by omega)) (.inr rfl)⟩
  | false =>
      rw [if_neg (by simp), or_iff_left (by simp)]
      refine ⟨fun _ _ => rfl, fun hread => ?_, fun hdata => Mem.read_eq_of_erased hdata herased⟩
      rw [hread] at herased
      exact herased

theorem pageWrite_stores_markable_iff (page : UInt32) (data : List UInt8) (w : FlashWorld)
    (happ : board.app ≤ page) (hpage : page < board.flashEnd)
    (hend : page.toNat + data.length ≤ board.flashEnd.toNat)
    (herased : ∀ b ∈ w.mem.read page data.length, b = 0xFF) :
    (∃ v, Prog.Returns stm32f4Ideal (stm32f4PageWrite board page data) w () v ∧
        v.mem.read page data.length = data ∧
        ∀ x, data.length ≤ (x - page).toNat → v.mem x = w.mem x) ↔
      (∀ b ∈ data, b = 0xFF) ∨ WriteMarkable board page data.length := by
  obtain ⟨v, hreturns, hothers, hiff⟩ := returns_pageWrite_reads page data w happ hpage hend herased
  rw [← hiff]
  constructor
  · rintro ⟨v', hv', hread, -⟩
    obtain rfl : v' = v := hv'.2.symm.trans hreturns.2
    exact hread
  · intro hread
    exact ⟨v, hreturns, hread, hothers⟩

/-- On the Nucleo board: the data is all 0xFF, the address begins a sector, or the range ends
    before the marking loop comes to the last sector, which begins at 0x08060000. -/
theorem pageWrite_stores_iff (page : UInt32) (data : List UInt8) (w : FlashWorld) (sector : Nat)
    (hsector : InSector sector page) (happ : nucleoBoardStm32f446reFlash.app ≤ page)
    (hend : page.toNat + data.length ≤ nucleoBoardStm32f446reFlash.flashEnd.toNat)
    (hdata : data ≠ []) (herased : ∀ b ∈ w.mem.read page data.length, b = 0xFF) :
    (∃ v, Prog.Returns stm32f4Ideal (stm32f4PageWrite nucleoBoardStm32f446reFlash page data) w ()
        v ∧ v.mem.read page data.length = data ∧
        ∀ x, data.length ≤ (x - page).toNat → v.mem x = w.mem x) ↔
      (∀ b ∈ data, b = 0xFF) ∨ page.toNat = sectorStart sector ∨
        page.toNat + data.length ≤ 0x08060000 + (page.toNat - sectorStart sector) := by
  have hlength := List.length_pos_iff.mpr hdata
  have hpage : page < nucleoBoardStm32f446reFlash.flashEnd := by
    rw [UInt32.lt_iff_toNat_lt]
    omega
  have hlow := UInt32.lt_of_lt_of_le (flashBegin_lt_app nucleoBoardStm32f446reFlash) happ
  rw [pageWrite_stores_markable_iff page data w happ hpage hend herased,
    writeMarkable_iff le_rfl page data.length 7 sector rfl hsector hlow hpage hend]
  rfl

/-- An erased board. -/
def erasedFlash : FlashWorld := ⟨fun _ => 0xFF, fun _ => false⟩

theorem erasedFlash_read (address : UInt32) (len : Nat) :
    ∀ b ∈ erasedFlash.mem.read address len, b = 0xFF := by
  intro b hb
  obtain ⟨_, -, rfl⟩ := List.mem_map.mp hb
  rfl

/-- A byte at the start of the application. -/
theorem pageWrite_stores_first : ∃ v, Prog.Returns stm32f4Ideal
    (stm32f4PageWrite nucleoBoardStm32f446reFlash 0x08010000 [1]) erasedFlash () v ∧
    v.mem.read 0x08010000 1 = [1] ∧
    ∀ x, 1 ≤ (x - 0x08010000).toNat → v.mem x = erasedFlash.mem x :=
  (pageWrite_stores_iff 0x08010000 [1] erasedFlash 4 (by decide) (by decide) (by decide)
    (by decide) (erasedFlash_read _ _)).mpr (.inr (.inl rfl))

/-- A byte in the last sector, but not the first one of it. -/
theorem pageWrite_last_sector : ¬ ∃ v, Prog.Returns stm32f4Ideal
    (stm32f4PageWrite nucleoBoardStm32f446reFlash 0x08060800 [1]) erasedFlash () v ∧
    v.mem.read 0x08060800 1 = [1] ∧
    ∀ x, 1 ≤ (x - 0x08060800).toNat → v.mem x = erasedFlash.mem x := by
  intro h
  have hcases := (pageWrite_stores_markable_iff 0x08060800 [1] erasedFlash (by decide) (by decide)
    (by decide) (erasedFlash_read _ _)).mp h
  rcases hcases with hdata | hmark
  · exact absurd (hdata 1 (List.mem_singleton_self 1)) (by decide)
  · have hrange := (writeMarkable_iff le_rfl 0x08060800 1 7 7 rfl (by decide) (by decide)
      (by decide) (by decide)).mp hmark
    exact absurd hrange (by decide)

end CanBootloader
