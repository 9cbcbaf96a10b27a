/-
  What the commands rely on: a flash writer that works.

  `WriterLaws` says it for any platform. Operations on the application leave everything below them
  alone, data is programmed where `Programs` holds, and each configuration page can be rewritten
  without the other one, the application and the code of the bootloader.

  `Mcu.writerLaws`: the writers of the microcontrollers work when their hardware does not fail and
  the linker script puts the regions on erasable units (`Mcu.Layout`).
-/
import CanBootloader.Firmware.EraseReply
import CanBootloader.Firmware.SaveReply
import CanBootloader.Firmware.WriteFlash

namespace CanBootloader

open Lib

variable {fw : Firmware} {σ : Type}

/-- A flash writer that works. -/
structure WriterLaws (fw : Firmware) (p : Platform σ)
    (Programs : UInt32 → List UInt8 → Prop) : Prop where
  erase : ∀ {w : σ} {address : UInt32}, fw.app ≤ address → address < fw.flashEnd →
    ∀ x < fw.app, p.mem (eraseAttempt p address w) x = p.mem w x
  write : ∀ {w : σ} {address : UInt32} {data : List UInt8}, fw.app ≤ address →
    address < fw.flashEnd → address.toNat + data.length ≤ fw.flashEnd.toNat →
    Programs address data → (∀ b ∈ (p.mem w).read address data.length, b = 0xFF) →
      (p.mem (p.lock (p.pageWrite address data (p.unlock w)))).read address data.length = data ∧
      ∀ x < address, p.mem (p.lock (p.pageWrite address data (p.unlock w))) x = p.mem w x
  rewrite : ∀ {w : σ} {data : List UInt8} (i : Slot), data.length = fw.configPageSize →
      (p.mem (p.rewrite (fw.configPage i) data w)).read (fw.configPage i) fw.configPageSize =
        data ∧
      KeepsOther fw (fw.configPage i) (p.mem w) (p.mem (p.rewrite (fw.configPage i) data w)) ∧
      ∀ x, x < fw.config1 ∨ fw.app ≤ x → p.mem (p.rewrite (fw.configPage i) data w) x = p.mem w x

/-- The attempts of an erase command. -/
theorem WriterLaws.afterAttempts {p : Platform σ} {Programs : UInt32 → List UInt8 → Prop}
    (h : WriterLaws fw p Programs) {address : UInt32} (happ : fw.app ≤ address)
    (hend : address < fw.flashEnd) (k : Nat) (w : σ) :
    ∀ x < fw.app, p.mem (afterAttempts p address k w) x = p.mem w x := by
  intro x hx
  induction k with
  | zero => rfl
  | succ k ih =>
      rw [CanBootloader.afterAttempts, Function.iterate_succ_apply']
      exact (h.erase happ hend x hx).trans ih

/-! ## Addresses -/

/-- The distance from an address behind `x` is no less than what is in front of the end of
    memory. -/
theorem le_toNat_sub {x a : UInt32} {n : Nat} (hx : x < a) (hn : a.toNat + n ≤ 2 ^ 32) :
    n ≤ (x - a).toNat := by
  rw [UInt32.lt_iff_toNat_lt] at hx
  rw [UInt32.toNat_sub]
  omega

/-- A configuration page ends before the application. -/
theorem configPage_end (fw : Firmware) (i : Slot) :
    (fw.configPage i).toNat + fw.configPageSize ≤ fw.app.toNat := by
  have h1 := fw.config1_end
  have h2 := fw.config2_end
  cases i with
  | first =>
      rw [Firmware.configPage]
      omega
  | second => exact h2

theorem flashBegin_lt_configPage (fw : Firmware) (i : Slot) :
    fw.flashBegin.toNat < (fw.configPage i).toNat := by
  have h1 := UInt32.lt_iff_toNat_lt.mp fw.flashBegin_lt
  have h2 := UInt32.lt_iff_toNat_lt.mp fw.config1_lt
  cases i with
  | first => exact h1
  | second => exact h1.trans h2

theorem config1_le_configPage (fw : Firmware) (i : Slot) :
    fw.config1.toNat ≤ (fw.configPage i).toNat := by
  cases i with
  | first => exact le_rfl
  | second => exact (UInt32.lt_iff_toNat_lt.mp fw.config1_lt).le

/-- What is stored in a configuration page is between the bootloader and the application. -/
theorem blit_configPage_outside (i : Slot) {m : Mem} {data : List UInt8}
    (hdata : data.length = fw.configPageSize) {x : UInt32} (hx : x < fw.config1 ∨ fw.app ≤ x) :
    (m.blit (fw.configPage i) data) x = m x := by
  have hstart := config1_le_configPage fw i
  have hend := configPage_end fw i
  have happ := fw.app.toNat_lt
  have hpage := x.toNat_lt
  rw [UInt32.lt_iff_toNat_lt, UInt32.le_iff_toNat_le] at hx
  apply Mem.blit_other
  rw [UInt32.toNat_sub]
  omega

/-! ## Erasable units -/

/-- The addresses that are erased with this one. -/
def Mcu.Unit (mcu : Mcu) (address x : UInt32) : Prop :=
  match mcu with
  | stm32f4 board => InSector (flashAddressToSector board address).toNat x
  | stm32f1 board => board.page x = board.page address

/-- The linker script puts the two configuration pages on a unit each, and the application on those
    behind them. The stm32f4 writer needs a flag for each sector of a configuration page; the
    pages of the stm32f1 writer have an even size. -/
def Mcu.Layout (fw : Firmware) : Mcu → Prop
  | stm32f4 board => ∃ sector : Slot → Nat, sector .first ≠ sector .second ∧
      ∀ i, (fw.configPage i).toNat = sectorStart (sector i) ∧ sector i < board.appSector ∧
        fw.configPageSize ≤ sectorSize (sector i) ∧ sector i < board.flashSectorIndexMax
  | stm32f1 board => ∃ (page : Slot → Nat) (appPage : Nat), page .first ≠ page .second ∧
      board.app.toNat = appPage * board.flashPageSize ∧ fw.configPageSize % 2 = 0 ∧
      ∀ i, (fw.configPage i).toNat = page i * board.flashPageSize ∧ page i < appPage ∧
        fw.configPageSize ≤ board.flashPageSize

/-- Where the writer of a board programs data: as far as the marking loop of the stm32f4 comes. -/
def Mcu.Programs : Mcu → UInt32 → List UInt8 → Prop
  | stm32f4 board, address, data => WriteMarkable board address data.length ∨ ∀ b ∈ data, b = 0xFF
  | stm32f1 _, _, _ => True

/-- An erase changes nothing outside the unit. -/
theorem Mcu.mem_pageErase (mcu : Mcu) (page : UInt32) (w : mcu.World) {x : UInt32}
    (hx : ¬ mcu.Unit page x) :
    mcu.platform.mem (mcu.platform.pageErase page w) x = mcu.platform.mem w x := by
  cases mcu with
  | stm32f4 board =>
      simp only [Mcu.Unit] at hx
      simp only [Mcu.platform, Platform.ofWriter, CanBootloader.stm32f4, stm32f4PageErase]
      split_ifs with hvalid
      · rfl
      · cases hflag : w.sectorIsErased (flashAddressToSector board page).toNat with
        | true => simp [Prog.run, stm32f4Ideal, hflag]
        | false => simp [Prog.run, stm32f4Ideal, hflag, hx]
  | stm32f1 board =>
      simp only [Mcu.Unit] at hx
      simp [Mcu.platform, Platform.ofWriter, CanBootloader.stm32f1, stm32f1PageErase, Prog.run,
        stm32f1Ideal, hx]

/-- Addresses in flash memory have their sector. -/
theorem inSector_of_configPage {board : Stm32f4Board}
    (hmap : fw.toMemoryMap = board.toMemoryMap) (i : Slot) {sector : Nat}
    (h : (fw.configPage i).toNat = sectorStart sector) (hsize : 0 < sectorSize sector) :
    (flashAddressToSector board (fw.configPage i)).toNat = sector := by
  have hbegin := flashBegin_lt_configPage fw i
  have hend := configPage_end fw i
  have happ := fw.app_end
  have hpage := fw.configPageSize_gt
  have hflash : fw.flashEnd = board.flashEnd := congrArg MemoryMap.flashEnd hmap
  have hfirst : fw.flashBegin = 0x08000000 :=
    (congrArg MemoryMap.flashBegin hmap).trans board.flashBegin_eq
  rw [hfirst] at hbegin
  simp only [UInt32.reduceToNat] at hbegin
  have hvalid : flashAddressIsValid board (fw.configPage i) = true := by
    rw [flashAddressIsValid_iff, ← hflash]
    omega
  refine flashAddressToSector_eq hvalid ?_ h hsize
  rw [UInt32.lt_iff_toNat_lt, ← hflash]
  omega

theorem sectorSize_pos (sector : Nat) : 0 < sectorSize sector := by
  unfold sectorSize
  split_ifs <;> omega

variable {mcu : Mcu}

/-- An address of the application is not erased together with one below it. -/
theorem Mcu.not_unit_of_app (hmap : fw.toMemoryMap = mcu.memoryMap) (hlayout : mcu.Layout fw)
    {address x : UInt32} (happ : fw.app ≤ address) (hend : address < fw.flashEnd)
    (hx : x < fw.app) : ¬ mcu.Unit address x := by
  rw [UInt32.le_iff_toNat_le] at happ
  rw [UInt32.lt_iff_toNat_lt] at hx
  have hfw : fw.app = mcu.memoryMap.app := congrArg MemoryMap.app hmap
  cases mcu with
  | stm32f4 board =>
      have hflash : fw.flashEnd = board.flashEnd := congrArg MemoryMap.flashEnd hmap
      have hbegin := UInt32.lt_iff_toNat_lt.mp (flashBegin_lt_app board)
      rw [board.flashBegin_eq] at hbegin
      simp only [Mcu.memoryMap, UInt32.reduceToNat] at hfw hbegin
      rw [hfw] at happ hx
      rw [hflash] at hend
      have hvalid : flashAddressIsValid board address = true := by
        rw [flashAddressIsValid_iff]
        exact ⟨lt_of_lt_of_le hbegin happ, (UInt32.lt_iff_toNat_lt.mp hend).le⟩
      intro hunit
      have hstart := sectorStart_le (inSector_flashAddressToSector hvalid hend)
        (board.app_eq ▸ happ)
      have hlow := hunit.1
      rw [board.app_eq] at hx
      omega
  | stm32f1 board =>
      obtain ⟨page, appPage, -, happPage, -, -⟩ := hlayout
      simp only [Mcu.memoryMap] at hfw
      rw [hfw, happPage] at happ hx
      have hpos : 0 < board.flashPageSize := Nat.pos_of_ne_zero fun h => by simp [h] at hx
      intro hunit
      have hlow : x.toNat / board.flashPageSize < appPage := (Nat.div_lt_iff_lt_mul hpos).mpr hx
      have hhigh := (Nat.le_div_iff_mul_le hpos).mpr happ
      simp only [Mcu.Unit, Stm32f1Board.page] at hunit
      omega

/-- The address is in the page. -/
def InConfigPage (fw : Firmware) (i : Slot) (x : UInt32) : Prop :=
  (fw.configPage i).toNat ≤ x.toNat ∧ x.toNat < (fw.configPage i).toNat + fw.configPageSize

/-- A configuration page is not erased together with another region. -/
theorem Mcu.not_unit_of_configPage (hmap : fw.toMemoryMap = mcu.memoryMap)
    (hlayout : mcu.Layout fw) (i : Slot) {x : UInt32}
    (hx : InConfigPage fw i.other x ∨ x < fw.config1 ∨ fw.app ≤ x) :
    ¬ mcu.Unit (fw.configPage i) x := by
  have hfw : fw.app = mcu.memoryMap.app := congrArg MemoryMap.app hmap
  have hfirst := config1_le_configPage fw i
  rw [UInt32.lt_iff_toNat_lt, UInt32.le_iff_toNat_le] at hx
  cases mcu with
  | stm32f4 board =>
      obtain ⟨sector, hne, hpages⟩ := hlayout
      obtain ⟨hstart, happ, hsize, -⟩ := hpages i
      obtain ⟨hother, -, hother_size, -⟩ := hpages i.other
      simp only [Mcu.memoryMap] at hfw
      intro hunit
      rw [Mcu.Unit, inSector_of_configPage hmap i hstart (sectorSize_pos _)] at hunit
      rcases hx with hx | hx | hx
      · have hin : InSector (sector i.other) x := by
          obtain ⟨hlow, hhigh⟩ := hx
          exact ⟨by omega, by omega⟩
        have heq := hin.unique hunit
        cases i with
        | first => exact hne heq.symm
        | second => exact hne heq
      · have hlow := hunit.1
        omega
      · rw [hfw, board.app_eq] at hx
        have hle := sectorStart_le hunit hx
        have hlt := sectorStart_strictMono happ
        omega
  | stm32f1 board =>
      obtain ⟨page, appPage, hne, happPage, -, hpages⟩ := hlayout
      obtain ⟨hstart, happ, hsize⟩ := hpages i
      obtain ⟨hother, -, -⟩ := hpages i.other
      simp only [Mcu.memoryMap] at hfw
      have hpos : 0 < board.flashPageSize := by
        have hpage := fw.configPageSize_gt
        omega
      intro hunit
      simp only [Mcu.Unit, Stm32f1Board.page, hstart, Nat.mul_div_cancel _ hpos] at hunit
      rcases hx with hx | hx | hx
      · have heq : x.toNat / board.flashPageSize = page i.other := by
          obtain ⟨hlow, hhigh⟩ := hx
          rw [Nat.div_eq_iff hpos]
          constructor <;> omega
        rw [heq] at hunit
        cases i with
        | first => exact hne hunit.symm
        | second => exact hne hunit
      · have hlow := Nat.div_mul_le_self x.toNat board.flashPageSize
        rw [hunit] at hlow
        omega
      · rw [hfw, happPage] at hx
        have hhigh := (Nat.le_div_iff_mul_le hpos).mpr hx
        omega

/-! ## Writes -/

/-- A write that begins with a sector below the application. -/
theorem mem_pageWrite_sectorStart {board : Stm32f4Board} {page : UInt32} {data : List UInt8}
    {sector : Nat} (hpage : page.toNat = sectorStart sector) (hlow : 0x08000000 < page.toNat)
    (hlen : data.length ≤ sectorSize sector)
    (hend : page.toNat + data.length ≤ board.flashEnd.toNat)
    (hflag : sector < board.flashSectorIndexMax) (w : FlashWorld) :
    ((Mcu.stm32f4 board).platform.pageWrite page data w).mem = w.mem.blit page data := by
  have hflash := board.flashEnd.toNat_lt
  have hstop : (page + UInt32.ofNat data.length).toNat = page.toNat + data.length :=
    toNat_add_ofNat (by omega)
  have hvalid : flashAddressIsValid board page = true ∧
      flashAddressIsValid board (page + UInt32.ofNat data.length) = true := by
    rw [flashAddressIsValid_iff, flashAddressIsValid_iff, hstop]
    omega
  obtain ⟨marked, u, hmark, hmem, hiff⟩ := returns_markSectors
    (page + UInt32.ofNat data.length) ⟨page, hvalid.1⟩ w
  obtain rfl : marked = true := by
    refine (hiff sector 0 ?_ hpage (sectorSize_pos sector)).mpr (markable_start ?_)
    · rw [UInt32.le_iff_toNat_le, hstop]
      exact hend
    · have hnext := sectorStart_mono (Nat.succ_le_of_lt hflag)
      rw [Nat.succ_eq_add_one, sectorStart_succ] at hnext
      omega
  have hreturns : Prog.Returns stm32f4Ideal (stm32f4PageWrite board page data) w ()
      { u with mem := u.mem.blit page data } := by
    unfold stm32f4PageWrite
    simp only
    rw [dif_pos hvalid]
    exact hmark.bind (.call rfl (.call rfl (.call rfl (.call rfl (.ret () _)))))
  have hworld : (Mcu.stm32f4 board).platform.pageWrite page data w = _ := hreturns.2
  rw [hworld, hmem]

/-- A configuration page is programmed as a whole. -/
theorem Mcu.mem_pageWrite_configPage (hmap : fw.toMemoryMap = mcu.memoryMap)
    (hlayout : mcu.Layout fw) (i : Slot) {data : List UInt8}
    (hdata : data.length = fw.configPageSize) (w : mcu.World) :
    mcu.platform.mem (mcu.platform.pageWrite (fw.configPage i) data w) =
      (mcu.platform.mem w).blit (fw.configPage i) data := by
  have hlen := configPageSize_lt fw
  cases mcu with
  | stm32f4 board =>
      obtain ⟨sector, -, hpages⟩ := hlayout
      obtain ⟨hstart, -, hsize, hflag⟩ := hpages i
      have hbegin := flashBegin_lt_configPage fw i
      have hend := configPage_end fw i
      have happ := fw.app_end
      have hflash : fw.flashEnd = board.flashEnd := congrArg MemoryMap.flashEnd hmap
      have hfirst : fw.flashBegin = 0x08000000 :=
        (congrArg MemoryMap.flashBegin hmap).trans board.flashBegin_eq
      rw [hfirst] at hbegin
      simp only [UInt32.reduceToNat] at hbegin
      rw [hflash] at happ
      exact mem_pageWrite_sectorStart hstart hbegin (hdata ▸ hsize) (by omega) hflag w
  | stm32f1 board =>
      obtain ⟨page, appPage, -, -, heven, -⟩ := hlayout
      obtain ⟨v, hreturns, hmem⟩ := returns_stm32f1PageWrite board (fw.configPage i)
        (hdata ▸ hlen) w
      have hworld : (Mcu.stm32f1 board).platform.pageWrite (fw.configPage i) data w = v :=
        hreturns.2
      show ((Mcu.stm32f1 board).platform.pageWrite (fw.configPage i) data w).mem = _
      rw [hworld, hmem, programmedBytes, if_pos (hdata ▸ heven)]
      rfl

/-- Data is programmed in erased memory, and nothing in front of it. -/
theorem Mcu.mem_pageWrite_app (hmap : fw.toMemoryMap = mcu.memoryMap) {address : UInt32}
    {data : List UInt8} (happ : fw.app ≤ address) (hlt : address < fw.flashEnd)
    (hend : address.toNat + data.length ≤ fw.flashEnd.toNat) (h : mcu.Programs address data)
    (w : mcu.World)
    (herased : ∀ b ∈ (mcu.platform.mem w).read address data.length, b = 0xFF) :
    (mcu.platform.mem (mcu.platform.pageWrite address data w)).read address data.length = data ∧
      ∀ x < address, mcu.platform.mem (mcu.platform.pageWrite address data w) x =
        mcu.platform.mem w x := by
  have hflash := fw.flashEnd.toNat_lt
  cases mcu with
  | stm32f4 board =>
      obtain ⟨stored, hmem, hiff⟩ := mem_pageWrite_stm32f4 board address data w
      have hstored := hiff (congrArg MemoryMap.app hmap ▸ happ)
        (congrArg MemoryMap.flashEnd hmap ▸ hlt) (congrArg MemoryMap.flashEnd hmap ▸ hend)
      show Mem.read (FlashWorld.mem _) _ _ = _ ∧ ∀ x < address, FlashWorld.mem _ x = _
      rw [hmem]
      cases stored with
      | true =>
          rw [if_pos rfl]
          exact ⟨Mem.read_blit _ _ (by omega),
            fun x hx => Mem.blit_other _ (le_toNat_sub hx (by omega))⟩
      | false =>
          rw [if_neg (by simp)]
          have hdata := h.resolve_left fun hmark => absurd (hstored.mpr hmark) (by simp)
          exact ⟨Mem.read_eq_of_erased hdata herased, fun _ _ => rfl⟩
  | stm32f1 board =>
      have hmem := mem_pageWrite_stm32f1 board (by omega) herased
      have hpad : (if data.length % 2 = 0 then [] else [(0xFF : UInt8)]).length ≤ 1 := by
        split_ifs <;> simp
      show Mem.read (Stm32f1World.mem _) _ _ = _ ∧ ∀ x < address, Stm32f1World.mem _ x = _
      rw [hmem]
      refine ⟨Mem.read_blit_append _ _ (by omega), fun x hx => Mem.blit_other _ ?_⟩
      rw [List.length_append]
      exact le_toNat_sub hx (by omega)

/-! ## Boards -/

/-- The writers work when the hardware does not fail. -/
theorem Mcu.writerLaws (hmap : fw.toMemoryMap = mcu.memoryMap) (hlayout : mcu.Layout fw) :
    WriterLaws fw mcu.platform mcu.Programs where
  erase {w address} happ hend x hx := by
    rw [eraseAttempt, Mcu.mem_lock,
      mcu.mem_pageErase _ _ (Mcu.not_unit_of_app hmap hlayout happ hend hx), Mcu.mem_unlock]
  write {w address data} happ hlt hend hprog herased := by
    have hwrite := Mcu.mem_pageWrite_app hmap happ hlt hend hprog (mcu.platform.unlock w)
      (by rwa [Mcu.mem_unlock])
    rwa [Mcu.mem_unlock, ← Mcu.mem_lock] at hwrite
  rewrite {w data} i hdata := by
    have herase : ∀ {x : UInt32}, InConfigPage fw i.other x ∨ x < fw.config1 ∨ fw.app ≤ x →
        mcu.platform.mem (mcu.platform.pageErase (fw.configPage i) (mcu.platform.unlock w)) x =
          mcu.platform.mem w x := by
      intro x hx
      rw [mcu.mem_pageErase _ _ (Mcu.not_unit_of_configPage hmap hlayout i hx), Mcu.mem_unlock]
    rw [Platform.rewrite, Mcu.mem_lock, Mcu.mem_pageWrite_configPage hmap hlayout i hdata]
    refine ⟨read_blit_configPage i hdata, fun j hj => ?_, fun x hx => ?_⟩
    · rw [keepsOther_blit i _ hdata.le j hj]
      obtain rfl : j = i.other := (i.eq_or_eq_other j).resolve_left fun heq => hj (heq ▸ rfl)
      apply Store.slice_congr
      intro k hk
      refine herase (.inl ?_)
      have hend := configPage_end fw i.other
      have happ := fw.app.toNat_lt
      rw [InConfigPage, toNat_add_ofNat (by omega)]
      omega
    · rw [blit_configPage_outside i hdata hx, herase (.inr hx)]

/-- The linker script of the Nucleo board. -/
theorem nucleo_layout :
    (Mcu.stm32f4 nucleoBoardStm32f446reFlash).Layout nucleoFirmware := by
  refine ⟨fun i => if i = .first then 2 else 3, by decide, fun i => ?_⟩
  cases i <;> decide

end CanBootloader
