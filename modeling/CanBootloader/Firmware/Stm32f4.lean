/-
  platform/mcu/stm32f4/flash_writer.c, and the flash memory it drives.

  Addresses are mapped to sectors by `flash_address_to_sector`; the table of the hardware
  (`sectorStart`, `sectorSize`) stands beside it, and `addressToSector_contains` says that they
  agree. The writer is a program over `FlashOp`: the flash routines of the peripheral library,
  the status register, the array `flash_sector_is_erased`, and memory reads.
-/
import CanBootloader.Firmware.Platform

namespace CanBootloader

open Lib

/-! ## Hardware -/

/-- The first address of a hardware sector: 4 of 16K, one of 64K, then 128K each. -/
def sectorStart (sector : Nat) : Nat :=
  if sector ≤ 4 then 0x08000000 + sector * 0x4000 else 0x08000000 + (sector - 4) * 0x20000

def sectorSize (sector : Nat) : Nat :=
  if sector < 4 then 0x4000 else if sector = 4 then 0x10000 else 0x20000

/-- The address lies in the hardware sector. -/
def InSector (sector : Nat) (x : UInt32) : Prop :=
  sectorStart sector ≤ x.toNat ∧ x.toNat < sectorStart sector + sectorSize sector

theorem sectorStart_mono {i j : Nat} (h : i ≤ j) : sectorStart i ≤ sectorStart j := by
  unfold sectorStart
  split_ifs <;> omega

instance (sector : Nat) (x : UInt32) : Decidable (InSector sector x) :=
  inferInstanceAs (Decidable (_ ∧ _))

/-- Sectors do not overlap. -/
theorem sectorStart_le {i j : Nat} {x : UInt32} (h : InSector i x) (hj : sectorStart j ≤ x.toNat) :
    sectorStart j ≤ sectorStart i := by
  unfold InSector sectorStart sectorSize at h
  unfold sectorStart at hj ⊢
  split_ifs at h hj ⊢ <;> omega

/-- A board with this writer. `FLASH_SECTOR_INDEX_MAX` is the length of its array. -/
structure Stm32f4Board extends MemoryMap where
  flashSectorIndexMax : Nat
  flashBegin_eq : flashBegin = 0x08000000
  /-- The number of sectors of the chip, which has one bank. -/
  sectorCount : Nat
  sectorCount_le : sectorCount ≤ 12
  flashEnd_eq : flashEnd.toNat = sectorStart sectorCount
  /-- The sector that the application begins with. -/
  appSector : Nat
  app_eq : app.toNat = sectorStart appSector

theorem flashBegin_lt_app (board : Stm32f4Board) : board.flashBegin < board.app :=
  UInt32.lt_trans board.flashBegin_lt (UInt32.lt_trans board.config1_lt board.config2_lt)

theorem flashBegin_lt_flashEnd (board : Stm32f4Board) : board.flashBegin < board.flashEnd := by
  have happ := UInt32.lt_iff_toNat_lt.mp (flashBegin_lt_app board)
  have hend := board.app_end
  rw [UInt32.lt_iff_toNat_lt]
  omega

def nucleoBoardStm32f446reFlash : Stm32f4Board where
  toMemoryMap := nucleoBoardStm32f446re
  flashSectorIndexMax := 8
  flashBegin_eq := rfl
  sectorCount := 8
  sectorCount_le := by decide
  flashEnd_eq := by decide
  appSector := 4
  app_eq := by decide

def olimexE407Flash : Stm32f4Board where
  toMemoryMap := olimexE407
  flashSectorIndexMax := 11
  flashBegin_eq := rfl
  sectorCount := 12
  sectorCount_le := by decide
  flashEnd_eq := by decide
  appSector := 3
  app_eq := by decide

/-- The beacon takes the default. -/
def uwbBeaconFlash : Stm32f4Board where
  toMemoryMap := uwbBeacon
  flashSectorIndexMax := 11
  flashBegin_eq := rfl
  sectorCount := 12
  sectorCount_le := by decide
  flashEnd_eq := by decide
  appSector := 3
  app_eq := by decide

/-! ## Sectors -/

variable (board : Stm32f4Board)

def flashAddressIsValid (address : UInt32) : Bool :=
  address > board.flashBegin && address ≤ board.flashEnd

def flashAddressToSector (addr : UInt32) : UInt8 :=
  if !flashAddressIsValid board addr then 0
  else
    let offset := addr &&& 0xFFFFFF
    let sector :=
      if offset < 0x10000 then (offset / 0x4000).toUInt8
      else if offset < 0x20000 then (3 + offset / 0x10000).toUInt8
      else (4 + offset / 0x20000).toUInt8
    if addr ≥ 0x08100000 then sector + 12 else sector

def flashGetSectorSize (address : UInt32) : UInt32 :=
  if !flashAddressIsValid board address then 0
  else if address < 0x08010000 then 0x4000
  else if address < 0x08020000 then 0x10000
  else 0x20000

variable {board}

theorem flashAddressIsValid_iff {a : UInt32} :
    flashAddressIsValid board a = true ↔
      0x08000000 < a.toNat ∧ a.toNat ≤ board.flashEnd.toNat := by
  rw [flashAddressIsValid, board.flashBegin_eq, Bool.and_eq_true, decide_eq_true_eq,
    decide_eq_true_eq, gt_iff_lt, UInt32.lt_iff_toNat_lt, UInt32.le_iff_toNat_le]
  rfl

theorem flashEnd_toNat_le (board : Stm32f4Board) : board.flashEnd.toNat ≤ 0x08100000 := by
  rw [board.flashEnd_eq]
  exact sectorStart_mono board.sectorCount_le

theorem offset_toNat {a : UInt32} (hlow : 0x08000000 ≤ a.toNat) (hhigh : a.toNat < 0x08100000) :
    (a &&& 0xFFFFFF).toNat = a.toNat - 0x08000000 := by
  rw [UInt32.toNat_and, show (0xFFFFFF : UInt32).toNat = 2 ^ 24 - 1 from rfl,
    Nat.and_two_pow_sub_one_eq_mod]
  omega

/-- The sector computed for a valid address in flash is the one it lies in. -/
theorem inSector_flashAddressToSector {a : UInt32} (hvalid : flashAddressIsValid board a = true)
    (ha : a < board.flashEnd) : InSector (flashAddressToSector board a).toNat a := by
  have hend := flashEnd_toNat_le board
  rw [UInt32.lt_iff_toNat_lt] at ha
  have hlow := (flashAddressIsValid_iff.mp hvalid).1
  have hoffset := offset_toNat hlow.le (show a.toNat < 0x08100000 by omega)
  have hbank : ¬ a ≥ 0x08100000 := by
    rw [ge_iff_le, UInt32.le_iff_toNat_le, show (0x08100000 : UInt32).toNat = 0x08100000 from rfl]
    omega
  unfold flashAddressToSector InSector sectorStart sectorSize
  simp only [hvalid, Bool.not_true, Bool.false_eq_true, if_false, if_neg hbank,
    UInt32.lt_iff_toNat_lt, hoffset, UInt32.reduceToNat]
  split_ifs <;>
    simp only [UInt32.toNat_toUInt8, UInt32.toNat_add, UInt32.toNat_div, hoffset,
      UInt32.reduceToNat] at * <;>
    omega

theorem flashGetSectorSize_pos {a : UInt32} (hvalid : flashAddressIsValid board a = true) :
    0 < (flashGetSectorSize board a).toNat ∧ (flashGetSectorSize board a).toNat ≤ 0x20000 := by
  unfold flashGetSectorSize
  simp only [hvalid, Bool.not_true, Bool.false_eq_true, if_false]
  split_ifs
  · decide
  · decide
  · decide

/-- The next address of the marking loop lies behind this one. -/
theorem toNat_lt_next {a : UInt32} (hvalid : flashAddressIsValid board a = true) :
    a.toNat < (a + flashGetSectorSize board a).toNat := by
  have hend := flashEnd_toNat_le board
  have ha := (flashAddressIsValid_iff.mp hvalid).2
  have hsize := flashGetSectorSize_pos hvalid
  rw [UInt32.toNat_add]
  omega

/-! ## The writer -/

/-- The calls of the writer. -/
inductive FlashOp where
  | flashUnlock
  | flashLock
  | enableErrorInterrupts
  | clearErrorFlags
  | anyErrorFlag
  | flashEraseSector (sector : UInt8)
  | flashProgram (address : UInt32) (data : List UInt8)
  | sectorIsErased (sector : UInt8)
  | setSectorIsErased (sector : UInt8) (b : Bool)
  | memory
  | rebootSystem (arg : UInt8)

abbrev FlashOp.Resp : FlashOp → Type
  | .anyErrorFlag => Bool
  | .sectorIsErased _ => Bool
  | .memory => Mem
  | .rebootSystem _ => Empty
  | _ => Unit

abbrev FlashCode := Prog FlashOp FlashOp.Resp

variable (board)

def stm32f4PageErase (page : UInt32) : FlashCode Unit :=
  if !flashAddressIsValid board page then .ret ()
  else
    let sector := flashAddressToSector board page
    .call (.sectorIsErased sector) fun erased =>
      if erased then .ret ()
      else
        .call .enableErrorInterrupts fun _ =>
        .call .clearErrorFlags fun _ =>
        .call (.flashEraseSector sector) fun _ =>
        .call .anyErrorFlag fun failed =>
          if failed then .call .clearErrorFlags .ret
          else .call (.setSectorIsErased sector true) .ret

/-- An address that passes the writer's check. -/
abbrev ValidAddress := {a : UInt32 // flashAddressIsValid board a = true}

/-- The loop that marks the target sectors as not erased; false if the function returns in
    it. -/
def markSectors (stop : UInt32) (a : ValidAddress board) : FlashCode Bool :=
  if a.1 < stop then
    let sector := flashAddressToSector board a.1
    if board.flashSectorIndexMax ≤ sector.toNat then .ret false
    else
      .call (.setSectorIsErased sector false) fun _ =>
        if hnext : flashAddressIsValid board (a.1 + flashGetSectorSize board a.1) = true then
          markSectors stop ⟨a.1 + flashGetSectorSize board a.1, hnext⟩
        else .ret false
  else .ret true
termination_by board.flashEnd.toNat - a.1.toNat
decreasing_by
  have hlt := toNat_lt_next a.2
  have hle := (flashAddressIsValid_iff.mp hnext).2
  omega

def stm32f4PageWrite (page : UInt32) (data : List UInt8) : FlashCode Unit :=
  let stop := page + UInt32.ofNat data.length
  if h : flashAddressIsValid board page = true ∧ flashAddressIsValid board stop = true then do
    if ← markSectors board stop ⟨page, h.1⟩ then
      .call .enableErrorInterrupts fun _ =>
      .call .clearErrorFlags fun _ =>
      .call (.flashProgram page data) fun _ =>
      .call .anyErrorFlag fun failed =>
        if failed then .call .clearErrorFlags .ret else .ret ()
    else .ret ()
  else .ret ()

/-- The calls of the portable code, with this writer. -/
def stm32f4 : (call : Call) → FlashCode call.Resp
  | .flashWriterUnlock => .call .flashUnlock .ret
  | .flashWriterLock => .call .flashLock .ret
  | .flashWriterPageErase page => stm32f4PageErase board page
  | .flashWriterPageWrite page data => stm32f4PageWrite board page data
  | .memory => .call .memory .ret
  | .rebootSystem arg => .call (.rebootSystem arg) .ret

/-! ## What the calls do -/

/-- Memory and the array `flash_sector_is_erased`. -/
structure FlashWorld where
  mem : Mem
  sectorIsErased : Nat → Bool

/-- Bytes outside the sector are unchanged; nothing is known if the chip has no such sector. -/
def ChangesSector (sector : Nat) (m m' : Mem) : Prop :=
  sector < board.sectorCount → ∀ x, ¬ InSector sector x → m' x = m x

/-- Only `len` bytes from the address on are changed. -/
def ChangesRange (address : UInt32) (len : Nat) (m m' : Mem) : Prop :=
  ∀ x, len ≤ (x - address).toNat → m' x = m x

/-- The hardware. Status flags are arbitrary, and so is what the program reads outside flash
    memory and behind the end of its array. -/
def stm32f4Hardware : Prog.Semantics FlashOp FlashOp.Resp FlashWorld where
  done
    | .flashEraseSector sector, w, _, w' =>
        w'.sectorIsErased = w.sectorIsErased ∧ ChangesSector board sector.toNat w.mem w'.mem ∧
          (sector.toNat < board.sectorCount →
            ∀ x, InSector sector.toNat x → w'.mem x = 0xFF)
    | .flashProgram address data, w, _, w' =>
        w'.sectorIsErased = w.sectorIsErased ∧ ChangesRange address data.length w.mem w'.mem
    | .sectorIsErased sector, w, r, w' =>
        w' = w ∧ (sector.toNat < board.flashSectorIndexMax → r = w.sectorIsErased sector.toNat)
    | .setSectorIsErased sector b, w, _, w' =>
        w'.mem = w.mem ∧ (sector.toNat < board.flashSectorIndexMax →
          w'.sectorIsErased = Function.update w.sectorIsErased sector.toNat b)
    | .memory, w, r, w' =>
        w' = w ∧ ∀ x, board.flashBegin ≤ x → x < board.flashEnd → r x = w.mem x
    | .rebootSystem _, _, _, _ => False
    | _, w, _, w' => w' = w
  during
    | .flashEraseSector sector, w, w' =>
        w'.sectorIsErased = w.sectorIsErased ∧ ChangesSector board sector.toNat w.mem w'.mem
    | .flashProgram address data, w, w' =>
        w'.sectorIsErased = w.sectorIsErased ∧ ChangesRange address data.length w.mem w'.mem
    | _, _, _ => False

/-- The same hardware when erases may fail, too: an erase can complete with anything in its
    sector. -/
def stm32f4Faulty : Prog.Semantics FlashOp FlashOp.Resp FlashWorld where
  done
    | .flashEraseSector sector, w, _, w' =>
        w'.sectorIsErased = w.sectorIsErased ∧ ChangesSector board sector.toNat w.mem w'.mem
    | op, w, r, w' => (stm32f4Hardware board).done op w r w'
  during := (stm32f4Hardware board).during

theorem stm32f4Hardware_le : stm32f4Hardware board ≤ stm32f4Faulty board := by
  refine ⟨fun op w r w' h => ?_, fun _ _ _ h => h⟩
  cases op with
  | flashEraseSector sector => exact ⟨h.1, h.2.1⟩
  | _ => exact h

end CanBootloader
