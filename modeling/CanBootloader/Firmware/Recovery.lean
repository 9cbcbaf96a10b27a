/-
  A board can always be recovered.

  A save leaves a valid configuration page, wherever it is interrupted and whatever the hardware
  makes of the page it works on (`crash_save_stm32f4`): an erase may also complete without erasing.
  No other command comes near the pages, or to the code of the bootloader.

  * `life_recoverable`: so every reset in the life of a board starts the same bootloader, which
    reads its configuration from a valid page.
-/
import CanBootloader.Firmware.Regions

namespace CanBootloader

open Lib

variable {board : Stm32f4Board} {fw : Firmware}

/-! ## Pages -/

/-- The bytes of a page decide whether it is valid. -/
theorem pageValid_congr {i : Slot} {m m' : Mem} (h : ∀ x, InConfigPage fw i x → m' x = m x) :
    PageValid fw i m' ↔ PageValid fw i m := by
  have hsize := fw.configPageSize_gt
  have hend := configPage_end fw i
  have happ := fw.app.toNat_lt
  have hread : m'.read (fw.configPage i) fw.configPageSize =
      m.read (fw.configPage i) fw.configPageSize := by
    refine List.map_congr_left fun k hk => h _ ?_
    have hlt := List.mem_range.mp hk
    rw [InConfigPage, toNat_add_ofNat (by omega)]
    omega
  unfold PageValid
  rw [configIsValid_congr fw (by omega) hread]

theorem config_of_inConfigPage {i : Slot} {x : UInt32} (hx : InConfigPage fw i x) :
    Region.config.Contains fw x := by
  have hstart := config1_le_configPage fw i
  have hend := configPage_end fw i
  obtain ⟨hlow, hhigh⟩ := hx
  exact ⟨UInt32.le_iff_toNat_le.mpr (by omega), UInt32.lt_iff_toNat_lt.mpr (by omega)⟩

/-- Reading memory leaves it alone, and shows the pages. -/
theorem memory_shows_pages (hmap : fw.toMemoryMap = board.toMemoryMap) {w w' : FlashWorld}
    {r : Mem} (h : (stm32f4FaultySemantics board).done .memory w r w') :
    w' = w ∧ ∀ i, PageValid fw i r ↔ PageValid fw i w.mem := by
  obtain ⟨r, u, ⟨rfl, hflash⟩, rfl, rfl⟩ := h
  refine ⟨rfl, fun i => pageValid_congr fun x hx => hflash x ?_ ?_⟩
  · have hbegin := flashBegin_lt_configPage fw i
    rw [hmap] at hbegin
    exact UInt32.le_iff_toNat_le.mpr (hbegin.le.trans hx.1)
  · have hend := configPage_end fw i
    have happ := app_le_flashEnd board
    rw [hmap] at hend
    exact UInt32.lt_iff_toNat_lt.mpr (by have hlt := hx.2; omega)

/-- It is not changed meanwhile. -/
theorem memory_visible {w w' : FlashWorld} (h : (stm32f4FaultySemantics board).during .memory w w') :
    w' = w := by
  rcases h with rfl | h | ⟨r, u, ⟨rfl, -⟩, rfl⟩
  · rfl
  · exact h.elim
  · rfl

/-! ## A save -/

/-- A call that changes nothing at these addresses, from a precondition about them. -/
theorem crash_spareCall {α : Type} {P : UInt32 → Prop} {I : FlashWorld → Prop}
    (hI : ∀ w w', I w → Keeps P w.mem w' → I w') {call : Call} (hcall : call.Spares board P)
    {k : call.Resp → Code α} {Q : α → FlashWorld → Prop}
    (hk : ∀ r, Prog.Crash (stm32f4FaultySemantics board) I (k r) I Q) :
    Prog.Crash (stm32f4FaultySemantics board) I (Prog.call call k) I Q := by
  refine .call (fun _ => I) (fun _ h => h) (fun w w' hw h => hI w w' hw ?_)
    (fun w r w' hw h => hI w w' hw ?_) hk
  · exact (preserves_spares hcall w fun _ _ => rfl).1 w' h
  · exact (preserves_spares hcall w fun _ _ => rfl).2 r w' h

section Save

variable (hmap : fw.toMemoryMap = board.toMemoryMap) (hlayout : (Mcu.stm32f4 board).Layout fw)

include hmap hlayout

/-- Rewriting one page while the other one is valid. -/
theorem crash_rewrite_stm32f4 (i : Slot) {data : List UInt8}
    (hdata : data.length = fw.configPageSize) :
    Prog.Crash (stm32f4FaultySemantics board) (fun w => PageValid fw i.other w.mem)
      (flashWriteAndVerify fw (fw.configPage i) data) (fun w => PageValid fw i.other w.mem)
      (fun b w => PageValid fw i.other w.mem ∧ (b = true → PageValid fw i w.mem)) := by
  have hkeeps : ∀ w w' : FlashWorld, PageValid fw i.other w.mem →
      Keeps (InConfigPage fw i.other) w.mem w' → PageValid fw i.other w'.mem :=
    fun w w' hw h => (pageValid_congr h).mpr hw
  obtain ⟨herase, hwrite⟩ := configPage_spares (P := InConfigPage fw i.other) hmap hlayout i
    (fun x hx => .inl hx) hdata
  -- unlock, erase, write, lock, verify
  refine crash_spareCall hkeeps (Call.Quiet.spares (by trivial)) fun _ => ?_
  refine crash_spareCall hkeeps herase fun _ => crash_spareCall hkeeps hwrite fun _ => ?_
  refine crash_spareCall hkeeps (Call.Quiet.spares (by trivial)) fun _ => ?_
  refine .call (fun r w => PageValid fw i.other w.mem ∧ (PageValid fw i r ↔ PageValid fw i w.mem))
    (fun _ h => h) (fun w w' hw h => ?_) (fun w r w' hw h => ?_) fun r => ?_
  · exact (memory_visible h) ▸ hw
  · obtain ⟨rfl, hpages⟩ := memory_shows_pages hmap h
    exact ⟨hw, hpages i⟩
  · refine .ret (fun _ h => h.1) fun w h => ⟨h.1, fun hvalid => h.2.mp ?_⟩
    rwa [hdata] at hvalid

/-- Rewriting page `i`, and then the other one if that was successful. -/
theorem crash_both_stm32f4 (i : Slot) {data : List UInt8}
    (hdata : data.length = fw.configPageSize) :
    Prog.Crash (stm32f4FaultySemantics board) (fun w => PageValid fw i.other w.mem)
      (do
        if ← flashWriteAndVerify fw (fw.configPage i) data then
          flashWriteAndVerify fw (fw.configPage i.other) data
        else return false)
      (fun w => SomePageValid fw w.mem) (fun _ w => SomePageValid fw w.mem) := by
  have hfirst := (crash_rewrite_stm32f4 hmap hlayout i hdata).weaken (fun _ h => h)
    (fun _ h => somePageValid_of fw h) (fun _ _ h => h)
  refine hfirst.bind fun b => ?_
  cases b with
  | false =>
      exact .ret (fun w h => somePageValid_of fw h.1) fun w h => somePageValid_of fw h.1
  | true =>
      have hother : i.other.other = i := by cases i <;> rfl
      have hsecond := crash_rewrite_stm32f4 hmap hlayout i.other hdata
      rw [hother] at hsecond
      exact hsecond.weaken (fun _ h => h.2 rfl) (fun _ h => somePageValid_of fw h)
        fun _ _ h => somePageValid_of fw h.1

theorem crash_save_stm32f4 (i : Invocation) :
    (commandConfigWriteToFlash fw i).Preserves (stm32f4FaultySemantics board)
      fun w => SomePageValid fw w.mem := by
  refine Prog.Preserves.bind (?_ : (saveConfigPages fw (savedPage fw i)).Preserves _ _)
    fun _ => .ret _
  rw [saveConfigPages, readMemory, Prog.call_bind]
  refine Prog.Crash.call (fun r w =>
      SomePageValid fw w.mem ∧ ∀ j, PageValid fw j r ↔ PageValid fw j w.mem) (fun _ h => h)
    (fun w w' hw h => ?_) (fun w r w' hw h => ?_) fun r => ?_
  · exact (memory_visible h) ▸ hw
  · obtain ⟨rfl, hpages⟩ := memory_shows_pages hmap h
    exact ⟨hw, hpages⟩
  rw [Prog.ret_bind]
  split_ifs with hsecond hfirst
  · exact (crash_both_stm32f4 hmap hlayout .first (savedPage_length fw i)).weaken
      (fun w h => (h.2 .second).mp hsecond) (fun _ h => h) fun _ _ h => h
  · exact (crash_both_stm32f4 hmap hlayout .second (savedPage_length fw i)).weaken
      (fun w h => (h.2 .first).mp hfirst) (fun _ h => h) fun _ _ h => h
  · -- no page is valid
    rintro w ⟨h | h, hpages⟩
    · exact absurd ((hpages .first).mpr h) hfirst
    · exact absurd ((hpages .second).mpr h) hsecond

omit hmap hlayout in
/-- The command that changes the pages. -/
theorem callback_save {cmd : Command} (h : cmd ∈ commands fw)
    (hindex : cmd.index ∈ Region.config.commands) :
    cmd.callback = commandConfigWriteToFlash fw := by
  rw [Region.commands, List.mem_singleton] at hindex
  obtain ⟨h3, -⟩ | ⟨h4, -⟩ | ⟨-, hc⟩ | ⟨hother, -⟩ := callback_flash h
  · exact absurd (hindex.symm.trans h3) (by decide)
  · exact absurd (hindex.symm.trans h4) (by decide)
  · exact hc
  · exact absurd (by simp [hindex]) hother

/-- What is visible of one datagram. -/
theorem somePageValid_of_visible {x : DatagramCall} {w v : FlashWorld}
    (hbegin : w.mem fw.flashBegin ≠ 0xFF) (hvalid : SomePageValid fw w.mem)
    (h : Prog.Visible (stm32f4FaultySemantics board) (x.code fw) w v) : SomePageValid fw v.mem := by
  by_cases hcalls : Region.config.Untouched fw [x]
  · have hkeeps := region_of_visible hmap hlayout hcalls hbegin h
    have hpage : ∀ i, PageValid fw i v.mem ↔ PageValid fw i w.mem :=
      fun i => pageValid_congr fun a ha => hkeeps a (config_of_inConfigPage ha)
    exact hvalid.imp (hpage .first).mpr (hpage .second).mpr
  · rcases x.code_cases fw with ⟨e, heq⟩ | ⟨cmd, hcmd, hx, i, heq⟩
    · rw [heq] at h
      rwa [show v = w from h]
    · have hindex : cmd.index ∈ Region.config.commands := by
        by_contra hindex
        refine hcalls fun y hy cmd' hy' => ?_
        rw [List.mem_singleton.mp hy, hx] at hy'
        exact Option.some.inj hy' ▸ hindex
      rw [heq, callback_save hcmd hindex] at h
      exact (((crash_save_stm32f4 hmap hlayout i).bind fun _ => .ret _) w hvalid).1 v h

theorem somePageValid_of_life {w v : FlashWorld} {calls : List DatagramCall}
    (h : Life board fw w calls v) (hbegin : w.mem fw.flashBegin ≠ 0xFF)
    (hvalid : SomePageValid fw w.mem) : SomePageValid fw v.mem := by
  refine (h.preserves (I := fun m => m fw.flashBegin ≠ 0xFF ∧ SomePageValid fw m) ?_
    ⟨hbegin, hvalid⟩).2
  rintro x - u u' ⟨hu, hvalid⟩ hvisible
  exact ⟨begin_of_visible hmap hlayout hu hvisible,
    somePageValid_of_visible hmap hlayout hu hvalid hvisible⟩

end Save

/-! ## Resets -/

/-- With a valid page there is no need for a new configuration. -/
theorem bootConfig_of_somePageValid {m : Mem} (h : SomePageValid fw m) :
    ∃ i, PageValid fw i m ∧ ∀ l, bootConfig fw m l =
      { configRead fw l (m.ptr (fw.configPage i)) fw.configPageSize with
        bootloaderCommit := fw.bootloaderCommit
        bootloaderVersion := fw.bootloaderVersion } := by
  by_cases hfirst : PageValid fw .first m
  · refine ⟨.first, hfirst, fun l => ?_⟩
    unfold PageValid Firmware.configPage at hfirst
    simp only [bootConfig, hfirst, if_true, Firmware.configPage]
  · have hsecond := h.resolve_left hfirst
    refine ⟨.second, hsecond, fun l => ?_⟩
    unfold PageValid Firmware.configPage at hfirst hsecond
    simp only [bootConfig, hfirst, hsecond, if_true, Firmware.configPage]
    rfl

/-- Whatever a board receives in its life, wherever power is cut and whatever the flash memory
    holds of the pages that were being changed: the code of the bootloader is as it was, and with
    a valid configuration page in the beginning there is one at the end. So the next reset
    starts the bootloader with a configuration from a valid page, which is not a new one. -/
theorem life_recoverable (board : Stm32f4Board) (fw : Firmware)
    (hmap : fw.toMemoryMap = board.toMemoryMap) (hlayout : (Mcu.stm32f4 board).Layout fw)
    (w v : FlashWorld) (calls : List DatagramCall) (hbegin : w.mem fw.flashBegin ≠ 0xFF)
    (hvalid : SomePageValid fw w.mem) (h : Life board fw w calls v) :
    (∀ a, Region.code.Contains fw a → v.mem a = w.mem a) ∧
      ∃ i, PageValid fw i v.mem ∧ ∀ l, bootConfig fw v.mem l =
        { configRead fw l (v.mem.ptr (fw.configPage i)) fw.configPageSize with
          bootloaderCommit := fw.bootloaderCommit
          bootloaderVersion := fw.bootloaderVersion } :=
  ⟨keeps_of_life hmap hlayout h hbegin fun _ _ _ _ => List.not_mem_nil,
    bootConfig_of_somePageValid (somePageValid_of_life hmap hlayout h hbegin hvalid)⟩

variable (fw) in
/-- A page that holds a configuration. -/
theorem pageValid_blit (i : Slot) (m : Mem) (config : BootloaderConfig) :
    PageValid fw i (m.blit (fw.configPage i) (configPageBuffer fw config)) := by
  refine configIsValid_of_write fw ?_ (read_blit_configPage i (configPageBuffer_length fw config))
  cases i with
  | first => exact .inl rfl
  | second => exact .inr rfl

/-- A save on the Nucleo board. -/
def saveCall : DatagramCall where
  data := Store.ofList encodeSaveConfig
  dataLen := 3
  outBuf := fun _ => 0
  outLen := nucleoFirmware.outputBufferSize
  config := blankConfig
  status := 0
  locals := blankLocals

/-- With a valid page 2 it can be cut when anything is in the sector of page 1. -/
theorem visible_saveCall {m : Mem} (hvalid : PageValid nucleoFirmware .second m) {m' : Mem}
    (hm' : ∀ x, ¬ InSector 2 x → m' x = m x) (flags : Nat → Bool) (hflag : flags 2 = false) :
    Prog.Visible (stm32f4FaultySemantics nucleoBoardStm32f446reFlash) (saveCall.code nucleoFirmware)
      ⟨m, flags⟩ ⟨m', flags⟩ := by
  have hsector : flashAddressToSector nucleoBoardStm32f446reFlash 0x08008000 = 2 := by decide
  have hcarries : saveCall.Carries encodeSaveConfig :=
    show saveCall.data.slice 0 3 = _ by decide
  have herase : Prog.Visible (stm32f4Faulty nucleoBoardStm32f446reFlash)
      (stm32f4PageErase nucleoBoardStm32f446reFlash 0x08008000) ⟨m, flags⟩ ⟨m', flags⟩ := by
    refine visible_faultyErase (by decide) ?_ rfl ?_
    · rw [hsector]
      exact hflag
    · rw [hsector]
      exact fun _ => hm'
  have hread : ReadLaw nucleoFirmware.cmp := Cmp.reference_read
  obtain ⟨i, hcalls, -⟩ := calls_save hread hcarries
  rw [hcalls.code_eq]
  refine Prog.Visible.bind_left (Prog.Visible.bind_left ?_)
  rw [saveConfigPages, readMemory, Prog.call_bind]
  refine .inr (.inr ⟨m, _, ⟨_, _, ⟨rfl, fun _ _ _ => rfl⟩, rfl, rfl⟩, ?_⟩)
  unfold PageValid Firmware.configPage at hvalid
  simp only [Prog.ret_bind, hvalid, if_true]
  refine Prog.Visible.bind_left (.inr (.inr ⟨(), _, ⟨_, _, rfl, rfl, rfl⟩, ?_⟩))
  exact .inr (.inl herase)

/-- Erased memory where this sector is. -/
def eraseSector (sector : Nat) (m : Mem) : Mem := fun x => if InSector sector x then 0xFF else m x

/-- The Nucleo board has a configuration in page 2 only, and power is cut when a save has erased
    page 1. -/
theorem life_recoverable_save :
    ∃ i, PageValid nucleoFirmware i (eraseSector 2 (Mem.blit (fun _ => 0)
      (nucleoFirmware.configPage .second) (configPageBuffer nucleoFirmware blankConfig))) := by
  have hbegin : Mem.blit (fun _ => 0) (nucleoFirmware.configPage .second)
      (configPageBuffer nucleoFirmware blankConfig) nucleoFirmware.flashBegin ≠ 0xFF := by
    rw [blit_configPage_outside .second (configPageBuffer_length nucleoFirmware blankConfig)
      (.inl (by decide))]
    decide
  have hsave : ∀ m : Mem, m nucleoFirmware.flashBegin ≠ 0xFF →
      PageValid nucleoFirmware .second m →
        ∃ i, PageValid nucleoFirmware i (eraseSector 2 m) := by
    intro m hbegin hvalid
    have houtside : ∀ x, ¬ InSector 2 x → eraseSector 2 m x = m x := fun x hx => if_neg hx
    have hvisible := visible_saveCall hvalid houtside (fun _ => false) rfl
    exact (life_recoverable nucleoBoardStm32f446reFlash nucleoFirmware rfl nucleo_layout
      ⟨m, fun _ => false⟩ ⟨eraseSector 2 m, fun _ => false⟩ [saveCall] hbegin (.inr hvalid)
      (.cut hvisible (.nil _))).2.imp fun _ h => h.1
  exact hsave _ hbegin (pageValid_blit nucleoFirmware .second (fun _ => 0) blankConfig)

end CanBootloader
