/-
  Sector arithmetic of the stm32f4 boards against their memory maps.

  The array `flash_sector_is_erased` has FLASH_SECTOR_INDEX_MAX entries. A write looks at the
  index before it uses it, an erase does not.

  * `allCalls_pageWrite`, `allCalls_pageErase_iff`: the accesses of a write are in range, those
    of an erase if the index is.
  * `sectorArithmetic_iff`: the sector of an application address is right on every board; it
    has an entry in the array unless it begins behind the last one.
  * `stm32f4_sectors_iff`: the three boards, of which two lack the entry of their last sector.
-/
import CanBootloader.Firmware.SectorCache

namespace CanBootloader

open Lib

/-! ## Accesses to the array -/

/-- The call does not access the array, or an entry that it has. -/
def FlashOp.InArray (board : Stm32f4Board) : FlashOp → Prop
  | .sectorIsErased sector => sector.toNat < board.flashSectorIndexMax
  | .setSectorIsErased sector _ => sector.toNat < board.flashSectorIndexMax
  | _ => True

section

variable (board : Stm32f4Board)

/-- The loop leaves before an index that is out of range. -/
theorem allCalls_markSectors (stop : UInt32) (a : ValidAddress board) :
    Prog.AllCalls (FlashOp.InArray board) (markSectors board stop a) := by
  induction a using markSectors.induct board stop with
  | case1 a hlt sector hmax =>
      rw [markSectors, if_pos hlt, if_pos hmax]
      trivial
  | case2 a hlt sector hmax ih =>
      rw [markSectors, if_pos hlt, if_neg hmax]
      refine ⟨not_le.mp hmax, fun _ => ?_⟩
      split_ifs with hnext
      · exact ih hnext
      · trivial
  | case3 a hlt =>
      rw [markSectors, if_neg hlt]
      trivial

theorem allCalls_pageWrite (page : UInt32) (data : List UInt8) :
    Prog.AllCalls (FlashOp.InArray board) (stm32f4PageWrite board page data) := by
  unfold stm32f4PageWrite
  simp only
  split_ifs with hvalid
  · refine (allCalls_markSectors board _ _).bind fun marked => ?_
    cases marked with
    | true =>
        refine ⟨trivial, fun _ => ⟨trivial, fun _ => ⟨trivial, fun _ => ⟨trivial, ?_⟩⟩⟩⟩
        intro failed
        cases failed with
        | true => exact ⟨trivial, fun _ => trivial⟩
        | false => trivial
    | false => trivial
  · trivial

/-- An erase looks at the entry of its sector, whatever the index. -/
theorem allCalls_pageErase_iff {page : UInt32} (hvalid : flashAddressIsValid board page = true) :
    Prog.AllCalls (FlashOp.InArray board) (stm32f4PageErase board page) ↔
      (flashAddressToSector board page).toNat < board.flashSectorIndexMax := by
  unfold stm32f4PageErase
  simp only [hvalid, Bool.not_true, Bool.false_eq_true, if_false]
  refine ⟨fun h => h.1, fun h => ⟨h, fun erased => ?_⟩⟩
  cases erased with
  | true => trivial
  | false =>
      refine ⟨trivial, fun _ => ⟨trivial, fun _ => ⟨trivial, fun _ => ⟨trivial, ?_⟩⟩⟩⟩
      intro failed
      cases failed with
      | true => exact ⟨trivial, fun _ => trivial⟩
      | false => exact ⟨h, fun _ => trivial⟩

/-! ## Application addresses -/

/-- What the writer computes for an address, and needs of it. -/
structure SectorArithmetic (address : UInt32) : Prop where
  contains : InSector (flashAddressToSector board address).toNat address
  size : (flashGetSectorSize board address).toNat =
    sectorSize (flashAddressToSector board address).toNat
  /-- No byte of the bootloader or a configuration page is in the sector. -/
  apart : ∀ x, InSector (flashAddressToSector board address).toNat x →
    ¬ (board.flashBegin ≤ x ∧ x < board.app)
  index_lt : (flashAddressToSector board address).toNat < board.flashSectorIndexMax
  erase_inArray : Prog.AllCalls (FlashOp.InArray board) (stm32f4PageErase board address)
  write_inArray : ∀ data,
    Prog.AllCalls (FlashOp.InArray board) (stm32f4PageWrite board address data)

variable {board}

theorem valid_of_app {address : UInt32} (happ : board.app ≤ address)
    (hend : address < board.flashEnd) : flashAddressIsValid board address = true := by
  have hlow := UInt32.lt_iff_toNat_lt.mp (flashBegin_lt_app board)
  rw [board.flashBegin_eq] at hlow
  rw [UInt32.le_iff_toNat_le] at happ
  rw [UInt32.lt_iff_toNat_lt] at hend
  exact flashAddressIsValid_iff.mpr ⟨lt_of_lt_of_le hlow happ, hend.le⟩

/-- A sector with an application address begins in the application region. -/
theorem app_le_of_inSector {sector : Nat} {address x : UInt32} (h : InSector sector address)
    (happ : board.app ≤ address) (hx : InSector sector x) : board.app ≤ x := by
  rw [UInt32.le_iff_toNat_le, board.app_eq] at happ ⊢
  exact le_trans (sectorStart_le h happ) hx.1

theorem sectorArithmetic_iff {address : UInt32} (happ : board.app ≤ address)
    (hend : address < board.flashEnd) :
    SectorArithmetic board address ↔
      address.toNat < sectorStart board.flashSectorIndexMax := by
  have hvalid := valid_of_app happ hend
  have hin := inSector_flashAddressToSector hvalid hend
  have hindex : (flashAddressToSector board address).toNat < board.flashSectorIndexMax ↔
      address.toNat < sectorStart board.flashSectorIndexMax := by
    constructor
    · intro hlt
      have hnext := sectorStart_mono (Nat.succ_le_of_lt hlt)
      rw [sectorStart_succ] at hnext
      exact lt_of_lt_of_le hin.2 hnext
    · intro hlt
      exact sectorStart_strictMono.lt_iff_lt.mp (lt_of_le_of_lt hin.1 hlt)
  refine ⟨fun h => hindex.mp h.index_lt, fun h => ?_⟩
  have hlt := hindex.mpr h
  exact
    { contains := hin
      size := flashGetSectorSize_of_inSector hvalid hin
      apart := fun x hx hlow => UInt32.not_lt.mpr (app_le_of_inSector hin happ hx) hlow.2
      index_lt := hlt
      erase_inArray := (allCalls_pageErase_iff board hvalid).mpr hlt
      write_inArray := allCalls_pageWrite board address }

end

/-! ## The boards -/

/-- The platforms with this writer. -/
inductive Stm32f4Platform where
  | nucleoBoardStm32f446re
  | olimexE407
  | uwbBeacon
  deriving DecidableEq

def Stm32f4Platform.board : Stm32f4Platform → Stm32f4Board
  | .nucleoBoardStm32f446re => nucleoBoardStm32f446reFlash
  | .olimexE407 => olimexE407Flash
  | .uwbBeacon => uwbBeaconFlash

/-- The application region of these boards ends with flash memory, without wrap-around. -/
theorem Stm32f4Platform.app_add (platform : Stm32f4Platform) :
    platform.board.app + platform.board.appSize = platform.board.flashEnd := by
  cases platform with
  | nucleoBoardStm32f446re => rfl
  | olimexE407 => rfl
  | uwbBeacon => rfl

theorem Stm32f4Platform.lt_start_iff (platform : Stm32f4Platform) {address : UInt32}
    (hend : address < platform.board.flashEnd) :
    address.toNat < sectorStart platform.board.flashSectorIndexMax ↔
      platform = .nucleoBoardStm32f446re ∨ address < 0x080E0000 := by
  rw [UInt32.lt_iff_toNat_lt] at hend ⊢
  cases platform with
  | nucleoBoardStm32f446re => exact ⟨fun _ => .inl rfl, fun _ => hend⟩
  | olimexE407 => exact ⟨.inr, fun h => h.resolve_left (by simp)⟩
  | uwbBeacon => exact ⟨.inr, fun h => h.resolve_left (by simp)⟩

/-- The last sector of the two larger boards, from 0x080E0000 on, has index 11, and their arrays
    have 11 entries. -/
theorem stm32f4_sectors_iff (platform : Stm32f4Platform) (address : UInt32)
    (happ : platform.board.app ≤ address)
    (hend : address < platform.board.app + platform.board.appSize) :
    SectorArithmetic platform.board address ↔
      platform = .nucleoBoardStm32f446re ∨ address < 0x080E0000 := by
  rw [platform.app_add] at hend
  rw [sectorArithmetic_iff happ hend, platform.lt_start_iff hend]

theorem stm32f4_sectors_iff_first : SectorArithmetic olimexE407Flash 0x0800C000 :=
  (stm32f4_sectors_iff .olimexE407 0x0800C000 (by decide) (by decide)).mpr (.inr (by decide))

theorem olimex_last_sector : olimexE407Flash.app ≤ 0x080E0000 ∧
    (0x080E0000 : UInt32) < olimexE407Flash.app + olimexE407Flash.appSize ∧
    ¬ SectorArithmetic olimexE407Flash 0x080E0000 := by
  refine ⟨by decide, by decide, fun h => ?_⟩
  have hsector : (flashAddressToSector olimexE407Flash 0x080E0000).toNat = 11 := by decide
  exact absurd h.index_lt (by rw [hsector]; decide)

end CanBootloader
