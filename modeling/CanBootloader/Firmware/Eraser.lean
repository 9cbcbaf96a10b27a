/-
  What a flash writer does when it erases well.

  `EraserLaws` says that an attempt to erase a page of the application leaves it erased, and that
  neither an erase nor a write spoils erased memory outside its range. The writers of the boards
  are like this as long as they are `Ready`: the stm32f4 writer does not erase a sector whose flag
  is set, so its flags have to say the truth.
-/
import CanBootloader.Firmware.SectorCache
import CanBootloader.Firmware.WriterLaws

namespace CanBootloader

open Lib

variable {fw : Firmware} {σ : Type}

/-- A writer that erases pages of this size. -/
structure EraserLaws (fw : Firmware) (p : Platform σ) (Programs : UInt32 → List UInt8 → Prop)
    (pageSize : Nat) (Ready : σ → Prop) : Prop where
  erase : ∀ {w : σ} {address : UInt32}, Ready w → fw.app ≤ address →
    pageSize ∣ address.toNat - fw.app.toNat → address.toNat + pageSize ≤ fw.flashEnd.toNat →
      Ready (eraseAttempt p address w) ∧
      (∀ x, address ≤ x → x.toNat < address.toNat + pageSize →
        p.mem (eraseAttempt p address w) x = 0xFF) ∧
      ∀ x, p.mem w x = 0xFF → p.mem (eraseAttempt p address w) x = 0xFF
  write : ∀ {w : σ} {address : UInt32} {data : List UInt8}, fw.app ≤ address →
    address < fw.flashEnd → address.toNat + data.length ≤ fw.flashEnd.toNat →
    Programs address data → (∀ b ∈ (p.mem w).read address data.length, b = 0xFF) →
      ∀ x, address.toNat + data.length ≤ x.toNat → p.mem w x = 0xFF →
        p.mem (p.lock (p.pageWrite address data (p.unlock w))) x = 0xFF

/-! ## The writers of the boards -/

/-- The flags of the stm32f4 writer say the truth. -/
def Mcu.Ready : (mcu : Mcu) → mcu.World → Prop
  | stm32f4 board, w => CacheTruthful board w
  | stm32f1 _, _ => True

/-- Pages of this size do not cross the border of a unit. The stm32f4 writer has a flag for each
    sector. -/
def Mcu.PagesFit (pageSize : Nat) : Mcu → Prop
  | stm32f4 board => pageSize ∣ 0x4000 ∧ board.sectorCount ≤ board.flashSectorIndexMax
  | stm32f1 board => pageSize ∣ board.flashPageSize

/-- Sectors begin and end at multiples of 16K. -/
theorem dvd_sectorStart {n : Nat} (h : n ∣ 0x4000) (sector : Nat) : n ∣ sectorStart sector := by
  refine h.trans ?_
  unfold sectorStart
  split_ifs
  · exact Nat.dvd_add (by decide) (Nat.dvd_mul_left _ _)
  · exact Nat.dvd_add (by decide) (Dvd.dvd.mul_left (by decide) _)

theorem dvd_sectorEnd {n : Nat} (h : n ∣ 0x4000) (sector : Nat) :
    n ∣ sectorStart sector + sectorSize sector := by
  refine Nat.dvd_add (dvd_sectorStart h sector) (h.trans ?_)
  unfold sectorSize
  split_ifs <;> decide

/-- A page that begins before a multiple of its size also ends there. -/
theorem page_le_of_dvd {n a b : Nat} (ha : n ∣ a) (hb : n ∣ b) (h : a < b) : a + n ≤ b := by
  obtain ⟨k, rfl⟩ := ha
  obtain ⟨l, rfl⟩ := hb
  have hkl : k < l := Nat.lt_of_mul_lt_mul_left h
  calc n * k + n = n * (k + 1) := (Nat.mul_succ n k).symm
    _ ≤ n * l := Nat.mul_le_mul_left n hkl

/-- An address of a page of the application is a multiple of the page size. -/
theorem dvd_of_dvd_sub {n a b : Nat} (h : n ∣ a - b) (hb : n ∣ b) (hle : b ≤ a) : n ∣ a := by
  rw [← Nat.sub_add_cancel hle]
  exact Nat.dvd_add h hb

section Stm32f4

variable {board : Stm32f4Board}

/-- What an erase of a valid address leaves. -/
theorem stm32f4_pageErase {page : UInt32} (hvalid : flashAddressIsValid board page = true)
    (w : FlashWorld) :
    let sector := (flashAddressToSector board page).toNat
    (Mcu.stm32f4 board).platform.pageErase page w =
      if w.sectorIsErased sector then w
      else ⟨fun x => if InSector sector x then 0xFF else w.mem x,
        Function.update w.sectorIsErased sector true⟩ := by
  intro sector
  simp only [Mcu.platform, Platform.ofWriter, CanBootloader.stm32f4, stm32f4PageErase, hvalid,
    Bool.not_true, Bool.false_eq_true, if_false]
  cases hflag : w.sectorIsErased sector with
  | true => simp [Prog.run, stm32f4Ideal, sector, hflag]
  | false => simp [Prog.run, stm32f4Ideal, sector, hflag]

/-- An erase of a ready writer erases the sector, and nothing that is erased is spoilt. -/
theorem CacheTruthful.pageErase {page : UInt32} (hvalid : flashAddressIsValid board page = true)
    (hpage : page < board.flashEnd) {w : FlashWorld} (h : CacheTruthful board w) :
    let v := (Mcu.stm32f4 board).platform.pageErase page w
    CacheTruthful board v ∧
      (∀ x, InSector (flashAddressToSector board page).toNat x → v.mem x = 0xFF) ∧
      ∀ x, w.mem x = 0xFF → v.mem x = 0xFF := by
  intro v
  have hsector := flashAddressToSector_lt hvalid hpage
  have hv : v = _ := stm32f4_pageErase hvalid w
  cases hflag : w.sectorIsErased (flashAddressToSector board page).toNat with
  | true =>
      rw [hflag, if_pos rfl] at hv
      rw [hv]
      exact ⟨h, h _ hsector hflag, fun _ hx => hx⟩
  | false =>
      rw [hflag, if_neg (by simp)] at hv
      have herased : ∀ x, InSector (flashAddressToSector board page).toNat x → v.mem x = 0xFF := by
        intro x hx
        rw [hv]
        exact if_pos hx
      have hspared : ∀ x, w.mem x = 0xFF → v.mem x = 0xFF := by
        intro x hx
        rw [hv]
        exact ite_eq_left_iff.mpr fun _ => hx
      refine ⟨fun s hs hset x hx => ?_, herased, hspared⟩
      by_cases heq : s = (flashAddressToSector board page).toNat
      · subst heq
        exact herased x hx
      · have hbefore : v.sectorIsErased s = w.sectorIsErased s := by
          rw [hv]
          exact Function.update_of_ne heq _ _
        exact hspared x (h s hs (hbefore ▸ hset) x hx)

end Stm32f4

theorem Mcu.ready_unlock (mcu : Mcu) {w : mcu.World} (h : mcu.Ready w) :
    mcu.Ready (mcu.platform.unlock w) := by
  cases mcu with
  | stm32f4 => exact h
  | stm32f1 => trivial

theorem Mcu.ready_lock (mcu : Mcu) {w : mcu.World} (h : mcu.Ready w) :
    mcu.Ready (mcu.platform.lock w) := by
  cases mcu with
  | stm32f4 => exact h
  | stm32f1 => trivial

/-- An erase of a page of the application. -/
theorem Mcu.mem_erasePage {mcu : Mcu} (hmap : fw.toMemoryMap = mcu.memoryMap)
    (hlayout : mcu.Layout fw) {pageSize : Nat} (hpos : 0 < pageSize)
    (hfit : mcu.PagesFit pageSize) {w : mcu.World} (hready : mcu.Ready w) {address : UInt32}
    (happ : fw.app ≤ address) (hdvd : pageSize ∣ address.toNat - fw.app.toNat)
    (hend : address.toNat + pageSize ≤ fw.flashEnd.toNat) :
    let v := mcu.platform.pageErase address w
    mcu.Ready v ∧
      (∀ x, address ≤ x → x.toNat < address.toNat + pageSize → mcu.platform.mem v x = 0xFF) ∧
      ∀ x, mcu.platform.mem w x = 0xFF → mcu.platform.mem v x = 0xFF := by
  intro v
  have hfw : fw.app = mcu.memoryMap.app := congrArg MemoryMap.app hmap
  have hle := UInt32.le_iff_toNat_le.mp happ
  cases mcu with
  | stm32f4 board =>
      have hflash : fw.flashEnd = board.flashEnd := congrArg MemoryMap.flashEnd hmap
      have hbegin := UInt32.lt_iff_toNat_lt.mp (flashBegin_lt_app board)
      rw [board.flashBegin_eq] at hbegin
      simp only [Mcu.memoryMap, UInt32.reduceToNat] at hfw hbegin
      rw [hfw] at hle hdvd
      rw [hflash] at hend
      have hlt : address < board.flashEnd := UInt32.lt_iff_toNat_lt.mpr (by omega)
      have hvalid : flashAddressIsValid board address = true := by
        rw [flashAddressIsValid_iff]
        omega
      obtain ⟨htruthful, herased, hspared⟩ := CacheTruthful.pageErase hvalid hlt hready
      refine ⟨htruthful, fun x hlow hhigh => herased x ?_, hspared⟩
      obtain ⟨hstart, hin⟩ := inSector_flashAddressToSector hvalid hlt
      have haddress : pageSize ∣ address.toNat :=
        dvd_of_dvd_sub hdvd (board.app_eq ▸ dvd_sectorStart hfit.1 _) hle
      have hpage := page_le_of_dvd haddress (dvd_sectorEnd hfit.1 _) hin
      rw [UInt32.le_iff_toNat_le] at hlow
      exact ⟨by omega, by omega⟩
  | stm32f1 board =>
      obtain ⟨page, appPage, -, happPage, -, hpages⟩ := hlayout
      have hsize : 0 < board.flashPageSize := by
        have hpage := fw.configPageSize_gt
        have hle := (hpages .first).2.2
        omega
      simp only [Mcu.memoryMap] at hfw
      rw [hfw] at hle hdvd
      have hmem : ∀ x, (Mcu.stm32f1 board).platform.mem v x =
          if board.page x = board.page address then 0xFF else w.mem x := by
        intro x
        simp [v, Mcu.platform, Platform.ofWriter, CanBootloader.stm32f1, stm32f1PageErase, Prog.run,
          stm32f1Ideal]
      refine ⟨trivial, fun x hlow hhigh => ?_, fun x hx => ?_⟩
      · rw [hmem, if_pos]
        have haddress : pageSize ∣ address.toNat :=
          dvd_of_dvd_sub hdvd (happPage ▸ Dvd.dvd.mul_left hfit _) hle
        have hnext : address.toNat + pageSize ≤
            board.flashPageSize * (address.toNat / board.flashPageSize + 1) :=
          page_le_of_dvd haddress (Dvd.dvd.mul_right hfit _) (Nat.lt_mul_div_succ _ hsize)
        have hfirst := Nat.div_mul_le_self address.toNat board.flashPageSize
        rw [UInt32.le_iff_toNat_le] at hlow
        rw [Nat.mul_comm] at hnext
        exact Nat.div_eq_of_lt_le (hfirst.trans hlow) (hhigh.trans_le hnext)
      · rw [hmem]
        exact ite_eq_left_iff.mpr fun _ => hx

/-- Data is programmed, and a byte of padding: neither spoils erased memory behind the range. -/
theorem blit_spares {m : Mem} {address x : UInt32} {data padding : List UInt8}
    (hpadding : ∀ b ∈ padding, b = 0xFF) (hx : address.toNat + data.length ≤ x.toNat)
    (herased : m x = 0xFF) : m.blit address (data ++ padding) x = 0xFF := by
  have hoffset : data.length ≤ (x - address).toNat := by
    rw [UInt32.toNat_sub_of_le _ _ (UInt32.le_iff_toNat_le.mpr (by omega))]
    omega
  rw [Mem.blit, List.getD_append_right _ _ _ _ hoffset, List.getD_eq_getElem?_getD]
  cases hbyte : padding[(x - address).toNat - data.length]? with
  | none => exact herased
  | some b => exact hpadding b (List.mem_of_getElem? hbyte)

/-- A write in the application. -/
theorem Mcu.pageWrite_spares {mcu : Mcu} {address : UInt32} {data : List UInt8}
    (hend : address.toNat + data.length ≤ fw.flashEnd.toNat) {w : mcu.World}
    (herased : ∀ b ∈ (mcu.platform.mem w).read address data.length, b = 0xFF) {x : UInt32}
    (hx : address.toNat + data.length ≤ x.toNat) (hspare : mcu.platform.mem w x = 0xFF) :
    mcu.platform.mem (mcu.platform.pageWrite address data w) x = 0xFF := by
  have hflash := fw.flashEnd.toNat_lt
  cases mcu with
  | stm32f4 board =>
      obtain ⟨stored, hmem, -⟩ := mem_pageWrite_stm32f4 board address data w
      show FlashWorld.mem _ x = _
      rw [hmem]
      cases stored with
      | true =>
          rw [if_pos rfl, ← List.append_nil data]
          exact blit_spares (by simp) hx hspare
      | false => exact hspare
  | stm32f1 board =>
      show Stm32f1World.mem _ x = _
      rw [mem_pageWrite_stm32f1 board (by omega) herased]
      refine blit_spares ?_ hx hspare
      split_ifs <;> simp

/-- The writers erase pages of their unit's size when the hardware does not fail. -/
theorem Mcu.eraserLaws {mcu : Mcu} (hmap : fw.toMemoryMap = mcu.memoryMap)
    (hlayout : mcu.Layout fw) {pageSize : Nat} (hpos : 0 < pageSize)
    (hfit : mcu.PagesFit pageSize) :
    EraserLaws fw mcu.platform mcu.Programs pageSize mcu.Ready where
  erase {w address} hready happ hdvd hend := by
    have hunlock : mcu.Ready (mcu.platform.unlock w) := mcu.ready_unlock hready
    obtain ⟨hready', herased, hspared⟩ :=
      Mcu.mem_erasePage hmap hlayout hpos hfit hunlock happ hdvd hend
    refine ⟨mcu.ready_lock hready', fun x hlow hhigh => ?_, fun x hx => ?_⟩
    · rw [eraseAttempt, Mcu.mem_lock]
      exact herased x hlow hhigh
    · rw [eraseAttempt, Mcu.mem_lock]
      exact hspared x (by rwa [Mcu.mem_unlock])
  write {w address data} happ hlt hend _ herased x hx hspare := by
    rw [Mcu.mem_lock]
    exact Mcu.pageWrite_spares hend (by rwa [Mcu.mem_unlock]) hx
      (by rwa [Mcu.mem_unlock])

end CanBootloader
