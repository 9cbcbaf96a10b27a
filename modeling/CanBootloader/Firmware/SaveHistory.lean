/-
  Saves, power losses and boots, one after the other.

  Here the flash writer does its work unless it is cut (`cutFlash`), and a cut leaves the page
  being rewritten invalid. Seen as two slots (`pages`), every moment of a save is one of the
  five states of `Slots.saveStates` (`crash_save`), and the page read at boot is `Slots.load`.

  A configuration is identified with the page contents it is loaded from or saved to. A save is
  atomic if the next boot loads the configuration that the node was running or the one saved. In
  every `History` that is so exactly for the saves that do not begin with a third configuration
  in page 2 (`save_atomic_iff`). Such saves do occur: the order of updates asks which pages are
  valid, not which of them is in use.
-/
import CanBootloader.Firmware.Save

namespace CanBootloader

open Lib

variable (fw : Firmware)

/-! ## Pages as slots -/

/-- The contents of a page, if it is valid. -/
def pageContent (i : Slot) (m : Mem) : Option (List UInt8) :=
  if configIsValid fw m (fw.configPage i) fw.configPageSize then
    some (m.read (fw.configPage i) fw.configPageSize)
  else none

/-- The two configuration pages. -/
def pages (m : Mem) : Slots (List UInt8) := ⟨pageContent fw .first m, pageContent fw .second m⟩

/-- The contents of the page that a boot reads, as `bootConfig` selects it; none for a new
    configuration. -/
def bootPage (m : Mem) : Option (List UInt8) :=
  if configIsValid fw m fw.config1 fw.configPageSize then
    some (m.read fw.config1 fw.configPageSize)
  else if configIsValid fw m fw.config2 fw.configPageSize then
    some (m.read fw.config2 fw.configPageSize)
  else none

variable {fw}

theorem pages_get (i : Slot) (m : Mem) : (pages fw m).get i = pageContent fw i m := by
  cases i with
  | first => rfl
  | second => rfl

theorem bootPage_eq_load (m : Mem) : bootPage fw m = (pages fw m).load := by
  unfold bootPage Slots.load pages pageContent Firmware.configPage
  simp only
  split_ifs
  · rw [Option.some_or]
  · rw [Option.some_or]
  · rw [Option.none_or]
  · rw [Option.none_or]

theorem pageContent_isSome (i : Slot) (m : Mem) :
    (pageContent fw i m).isSome = true ↔ PageValid fw i m := by
  unfold pageContent PageValid
  split_ifs with h
  · simp [h]
  · simp [h]

theorem pageContent_none (i : Slot) (m : Mem) :
    pageContent fw i m = none ↔ ¬ PageValid fw i m := by
  rw [← pageContent_isSome, Bool.not_eq_true, Option.isSome_eq_false_iff, Option.isNone_iff_eq_none]

/-- An operation on one page is an operation on its slot. -/
theorem pages_of_keepsOther {i : Slot} {m m' : Mem}
    (h : KeepsOther fw (fw.configPage i) m m') :
    pages fw m' = (pages fw m).set i (pageContent fw i m') := by
  have hother : pageContent fw i.other m' = pageContent fw i.other m := by
    have hvalid := h.valid
    unfold pageContent
    rw [h i.other (configPage_ne_other fw i)]
    unfold PageValid at hvalid
    simp only [hvalid]
  apply Slots.ext_get
  intro j
  rcases i.eq_or_eq_other j with rfl | rfl
  · rw [pages_get, Slots.get_set_self]
  · rw [pages_get, Slots.get_set_other, pages_get, hother]

/-- The page saved by a configuration. -/
theorem pageContent_of_write {i : Slot} {m : Mem} {config : BootloaderConfig}
    (h : m.read (fw.configPage i) fw.configPageSize = configPageBuffer fw config) :
    pageContent fw i m = some (configPageBuffer fw config) := by
  have hpage : fw.configPage i = fw.config1 ∨ fw.configPage i = fw.config2 := by
    cases i with
    | first => exact .inl rfl
    | second => exact .inr rfl
  rw [pageContent, if_pos (configIsValid_of_write fw hpage h), h]

/-! ## A save and its cuts -/

variable (fw)

/-- The page at `page` is not valid. -/
def Invalid (page : UInt32) (m : Mem) : Prop := ∀ i, fw.configPage i = page → ¬ PageValid fw i m

/-- A flash writer that does its work, and leaves the page it targets invalid if it is cut. -/
def cutFlash : Prog.Semantics Call Call.Resp Mem where
  done
    | .flashWriterUnlock, m, _, m' => m' = m
    | .flashWriterLock, m, _, m' => m' = m
    | .flashWriterPageErase page, m, _, m' => KeepsOther fw page m m' ∧ Invalid fw page m'
    | .flashWriterPageWrite page data, m, _, m' =>
        KeepsOther fw page m m' ∧ m'.read page data.length = data
    | .memory, m, r, m' => r = m ∧ m' = m
    | .rebootSystem _, _, _, _ => False
  during
    | .flashWriterPageErase page, m, m' => KeepsOther fw page m m' ∧ Invalid fw page m'
    | .flashWriterPageWrite page _, m, m' => KeepsOther fw page m m' ∧ Invalid fw page m'
    | _, _, _ => False

variable {fw}

theorem pages_of_invalid {i : Slot} {m m' : Mem}
    (h : KeepsOther fw (fw.configPage i) m m' ∧ Invalid fw (fw.configPage i) m') :
    pages fw m' = (pages fw m).set i none := by
  rw [pages_of_keepsOther h.1, (pageContent_none i m').mpr (h.2 i rfl)]

theorem pages_of_written {i : Slot} {m m' : Mem} {config : BootloaderConfig}
    (h : KeepsOther fw (fw.configPage i) m m' ∧
      m'.read (fw.configPage i) (configPageBuffer fw config).length =
        configPageBuffer fw config) :
    pages fw m' = (pages fw m).set i (some (configPageBuffer fw config)) := by
  rw [configPageBuffer_length] at h
  rw [pages_of_keepsOther h.1, pageContent_of_write h.2]

variable (fw)

theorem crash_rewrite (s : Slots (List UInt8)) (i : Slot) (config : BootloaderConfig) :
    Prog.Crash (cutFlash fw) (fun m => pages fw m = s)
      (flashWriteAndVerify fw (fw.configPage i) (configPageBuffer fw config))
      (fun m => pages fw m ∈ s.rewriteStates i (configPageBuffer fw config))
      (fun b m => b = true ∧ pages fw m = s.set i (some (configPageBuffer fw config))) := by
  have h0 : ∀ m, pages fw m = s →
      pages fw m ∈ s.rewriteStates i (configPageBuffer fw config) := by
    intro m h
    simp [Slots.rewriteStates, h]
  have h1 : ∀ m, pages fw m = s.set i none →
      pages fw m ∈ s.rewriteStates i (configPageBuffer fw config) := by
    intro m h
    simp [Slots.rewriteStates, h]
  have h2 : ∀ m, pages fw m = s.set i (some (configPageBuffer fw config)) →
      pages fw m ∈ s.rewriteStates i (configPageBuffer fw config) := by
    intro m h
    simp [Slots.rewriteStates, h]
  -- unlock
  refine .silent (fun _ _ _ h => h) (fun _ _ h => h) h0 fun _ => ?_
  -- erase
  have herase : ∀ m m', pages fw m = s →
      KeepsOther fw (fw.configPage i) m m' ∧ Invalid fw (fw.configPage i) m' →
      pages fw m' = s.set i none := by
    intro m m' hm h
    rw [pages_of_invalid h, hm]
  refine .call (fun _ m => pages fw m = s.set i none) h0
    (fun m m' hm h => h1 m' (herase m m' hm h)) (fun m _ m' => herase m m') fun _ => ?_
  -- write
  refine .call (fun _ m => pages fw m = s.set i (some (configPageBuffer fw config))) h1 ?_ ?_
    fun _ => ?_
  · intro m m' hm h
    refine h1 m' ?_
    rw [pages_of_invalid h, hm, Slots.set_set_same]
  · intro m _ m' hm h
    rw [pages_of_written h, hm, Slots.set_set_same]
  -- lock
  refine .silent (fun _ _ _ h => h) (fun _ _ h => h) h2 fun _ => ?_
  -- verify
  refine .read (fun r m => r = m) (fun _ _ _ h => h.symm) (fun _ _ h => h) h2 fun r => ?_
  refine .ret (fun m h => h2 m h.1) fun m h => ⟨?_, h.1⟩
  have hvalid : (pageContent fw i m).isSome := by
    rw [← pages_get, h.1, Slots.get_set_self]
    rfl
  rw [configPageBuffer_length, h.2]
  exact (pageContent_isSome i m).mp hvalid

/-- The first page of a save. -/
theorem crash_firstPage (s : Slots (List UInt8)) (config : BootloaderConfig) :
    Prog.Crash (cutFlash fw) (fun m => pages fw m = s)
      (flashWriteAndVerify fw (fw.configPage s.order) (configPageBuffer fw config))
      (fun m => pages fw m ∈ s.saveStates (configPageBuffer fw config))
      (fun b m => b = true ∧
        pages fw m = s.set s.order (some (configPageBuffer fw config))) :=
  (crash_rewrite fw s s.order config).weaken (fun _ h => h)
    (fun _ h => Slots.mem_saveStates_of_first h) fun _ _ h => h

/-- The second page of a save. -/
theorem crash_secondPage (s : Slots (List UInt8)) (config : BootloaderConfig) :
    Prog.Crash (cutFlash fw)
      (fun m => pages fw m = s.set s.order (some (configPageBuffer fw config)))
      (flashWriteAndVerify fw (fw.configPage s.order.other) (configPageBuffer fw config))
      (fun m => pages fw m ∈ s.saveStates (configPageBuffer fw config))
      (fun b m => b = true ∧ pages fw m =
        ⟨some (configPageBuffer fw config), some (configPageBuffer fw config)⟩) := by
  have hsecond := crash_rewrite fw (s.set s.order (some (configPageBuffer fw config)))
    s.order.other config
  rw [Slots.set_set_other] at hsecond
  exact hsecond.weaken (fun _ h => h) (fun _ h => Slots.mem_saveStates_of_second h) fun _ _ h => h

/-- A save makes its way through the states of a two-slot save, and ends in the last. -/
theorem crash_save (s : Slots (List UInt8)) (config : BootloaderConfig) :
    Prog.Crash (cutFlash fw) (fun m => pages fw m = s)
      (saveConfigPages fw (configPageBuffer fw config))
      (fun m => pages fw m ∈ s.saveStates (configPageBuffer fw config))
      (fun _ m => pages fw m =
        ⟨some (configPageBuffer fw config), some (configPageBuffer fw config)⟩) := by
  have hstart : ∀ m, pages fw m = s → pages fw m ∈ s.saveStates (configPageBuffer fw config) := by
    intro m hm
    simp [Slots.saveStates, hm]
  have hfirst := crash_firstPage fw s config
  have hsecond := crash_secondPage fw s config
  -- the second page is written where the first one was a success, as it always is
  have hboth : Prog.Crash (cutFlash fw) (fun m => pages fw m = s)
      (do
        if ← flashWriteAndVerify fw (fw.configPage s.order) (configPageBuffer fw config) then
          flashWriteAndVerify fw (fw.configPage s.order.other) (configPageBuffer fw config)
        else return false)
      (fun m => pages fw m ∈ s.saveStates (configPageBuffer fw config))
      (fun _ m => pages fw m =
        ⟨some (configPageBuffer fw config), some (configPageBuffer fw config)⟩) := by
    refine hfirst.bind fun b => ?_
    cases b with
    | true => exact hsecond.weaken (fun _ h => h.2) (fun _ h => h) fun _ _ h => h.2
    | false =>
        rintro m ⟨h, -⟩
        exact absurd h Bool.false_ne_true
  rw [saveConfigPages, readMemory, Prog.call_bind]
  refine .read (fun r m => r = m) (fun _ _ _ h => h.symm) (fun _ _ h => h) hstart fun m => ?_
  rw [Prog.ret_bind]
  rintro _ ⟨hm, rfl⟩
  have hvalid : ∀ i, (s.get i).isSome = true ↔ PageValid fw i m := by
    intro i
    rw [← hm, pages_get, pageContent_isSome]
  split_ifs with h2 h1
  · have horder : s.order = .first := if_pos ((hvalid .second).mpr h2)
    rw [horder] at hboth
    exact hboth m hm
  · have hs : ¬ s.second.isSome = true := fun h => h2 ((hvalid .second).mp h)
    have hf : s.first.isSome = true := (hvalid .first).mpr h1
    have horder : s.order = .second := by rw [Slots.order, if_neg hs, if_pos hf]
    rw [horder] at hboth
    exact hboth m hm
  · have hs : ¬ s.second.isSome = true := fun h => h2 ((hvalid .second).mp h)
    have hf : ¬ s.first.isSome = true := fun h => h1 ((hvalid .first).mp h)
    have horder : s.order = .first := by rw [Slots.order, if_neg hs, if_neg hf]
    rw [horder] at hfirst hsecond
    refine (hfirst.bind fun first => ?_) m hm
    refine (hsecond.weaken (fun _ h => h.2) (fun _ h => h) fun _ _ h => h).bind fun second => ?_
    refine .ret (fun m h => ?_) fun _ h => h.2
    rw [h.2]
    exact Slots.last_mem_saveStates s _

/-- The page that a save command writes. -/
def savedPage (i : Invocation) : List UInt8 :=
  configPageBuffer fw { i.config with updateCount := i.config.updateCount + 1 }

theorem savedPage_length (i : Invocation) : (savedPage fw i).length = fw.configPageSize :=
  configPageBuffer_length fw _

variable {fw}

theorem crash_command (i : Invocation) (m : Mem) :
    Prog.Crash (cutFlash fw) (fun m' => m' = m) (commandConfigWriteToFlash fw i)
      (fun m' => pages fw m' ∈ (pages fw m).saveStates (savedPage fw i))
      (fun _ m' => pages fw m' = ⟨some (savedPage fw i), some (savedPage fw i)⟩) := by
  have hsave := crash_save fw (pages fw m)
    { i.config with updateCount := i.config.updateCount + 1 }
  intro m' hm
  unfold commandConfigWriteToFlash savedPage
  refine (hsave.bind fun success => ?_) m' (congrArg (pages fw) hm)
  refine .ret (fun t h => ?_) fun t h => h
  rw [h]
  exact Slots.last_mem_saveStates _ _

/-! ## Spoiling a page in memory -/

variable (fw)

/-- The page in slot `i` with another checksum. -/
def spoil (i : Slot) (m : Mem) : Mem := m.blit (fw.configPage i) [m (fw.configPage i) + 1]

variable {fw}

theorem spoil_ptr_zero (i : Slot) (m : Mem) :
    (spoil fw i m).ptr (fw.configPage i) 0 = m.ptr (fw.configPage i) 0 + 1 := by
  simp [spoil, Mem.ptr, Mem.blit]

theorem spoil_ptr_pos (i : Slot) (m : Mem) {k : Nat} (hpos : 0 < k) (hk : k < 2 ^ 32) :
    (spoil fw i m).ptr (fw.configPage i) k = m.ptr (fw.configPage i) k := by
  apply Mem.blit_other
  rw [UInt32.add_comm, UInt32.add_sub_cancel, UInt32.toNat_ofNat', Nat.mod_eq_of_lt hk]
  exact hpos

theorem spoil_invalid {i : Slot} {m : Mem} (h : PageValid fw i m) :
    ¬ PageValid fw i (spoil fw i m) := by
  have hsize := configPageSize_lt fw
  have hsize4 := fw.configPageSize_gt
  have hcalc : configCalculateCrc fw ((spoil fw i m).ptr (fw.configPage i)) fw.configPageSize =
      configCalculateCrc fw (m.ptr (fw.configPage i)) fw.configPageSize := by
    unfold configCalculateCrc
    rw [Store.slice_congr fun k hk => spoil_ptr_pos i m (by omega) (by omega)]
  have hcrc : configReadCrc ((spoil fw i m).ptr (fw.configPage i)) ≠
      configReadCrc (m.ptr (fw.configPage i)) := by
    intro heq
    have hword := congrArg UInt32.toNat heq
    rw [configReadCrc, configReadCrc, word_of_bytes, word_of_bytes, spoil_ptr_zero,
      spoil_ptr_pos i m (by omega) (by omega), spoil_ptr_pos i m (by omega) (by omega),
      spoil_ptr_pos i m (by omega) (by omega), UInt8.toNat_add] at hword
    have hbyte := (m.ptr (fw.configPage i) 0).toNat_lt
    have hone : (1 : UInt8).toNat = 1 := rfl
    omega
  intro h'
  unfold PageValid configIsValid at h h'
  split_ifs at h h' with hrange
  rw [beq_iff_eq] at h h'
  rw [hcalc, ← h] at h'
  exact hcrc h'

theorem pages_spoil {m : Mem} (h : PageValid fw .first m) :
    KeepsOther fw fw.config1 m (spoil fw .first m) ∧ Invalid fw fw.config1 (spoil fw .first m) := by
  have hsize := fw.configPageSize_gt
  refine ⟨keepsOther_blit .first m (by simp; omega), ?_⟩
  intro j hj
  cases j with
  | first => exact spoil_invalid h
  | second => exact absurd hj (configPage_ne_other fw .first)

/-! ## Histories -/

/-- An attempt to save: the flash when it begins, the page of the configuration the node runs,
    the page to be saved, and the flash when it ends or power is lost. -/
structure Attempt where
  before : Mem
  running : Option (List UInt8)
  saved : List UInt8
  after : Mem

variable (fw)

/-- A history up to now: the flash, the page of the configuration that the node has loaded or
    saved last, and the attempts to save, latest first. -/
inductive History : Mem → Option (List UInt8) → List Attempt → Prop
  | boot (m : Mem) : History m (bootPage fw m) []
  | reboot {m : Mem} {running : Option (List UInt8)} {attempts : List Attempt} :
      History m running attempts → History m (bootPage fw m) attempts
  | saved {m m' : Mem} {running : Option (List UInt8)} {attempts : List Attempt}
      {i : Invocation} {r : Reply} :
      History m running attempts →
      Prog.Runs (cutFlash fw) (commandConfigWriteToFlash fw i) m r m' →
      History m' (some (savedPage fw i)) (⟨m, running, savedPage fw i, m'⟩ :: attempts)
  | cut {m m' : Mem} {running : Option (List UInt8)} {attempts : List Attempt}
      {i : Invocation} :
      History m running attempts →
      Prog.Visible (cutFlash fw) (commandConfigWriteToFlash fw i) m m' →
      History m' (bootPage fw m') (⟨m, running, savedPage fw i, m'⟩ :: attempts)

/-- Both pages are valid, and page 2 holds neither the contents of page 1 nor `page`. -/
def StalePage (m : Mem) (page : List UInt8) : Prop :=
  configIsValid fw m fw.config1 fw.configPageSize = true ∧
    configIsValid fw m fw.config2 fw.configPageSize = true ∧
    m.read fw.config2 fw.configPageSize ≠ m.read fw.config1 fw.configPageSize ∧
    m.read fw.config2 fw.configPageSize ≠ page

variable {fw} {m : Mem} {running : Option (List UInt8)} {attempts : List Attempt}

theorem stale_pages_iff {page : List UInt8} : (pages fw m).Stale page ↔ StalePage fw m page := by
  unfold Slots.Stale StalePage pages pageContent Firmware.configPage
  constructor
  · rintro ⟨x, y, hx, hy, hne, hpage⟩
    rw [Option.ite_none_right_eq_some, Option.some.injEq] at hx hy
    obtain ⟨h1, rfl⟩ := hx
    obtain ⟨h2, rfl⟩ := hy
    exact ⟨h1, h2, hne, hpage⟩
  · rintro ⟨h1, h2, hne, hpage⟩
    exact ⟨_, _, if_pos h1, if_pos h2, hne, hpage⟩

/-- The configuration in use is the one that a boot would load now. -/
theorem History.running_eq (h : History fw m running attempts) : running = bootPage fw m := by
  cases h with
  | boot => rfl
  | reboot h => rfl
  | saved h hrun =>
      rw [bootPage_eq_load, (crash_command _ _ _ rfl).2 _ _ hrun]
      rfl
  | cut h hvis => rfl

/-- Every attempt begins with the configuration in use, and leaves a state of a two-slot save. -/
theorem History.attempt (h : History fw m running attempts) {a : Attempt} (ha : a ∈ attempts) :
    a.running = bootPage fw a.before ∧
      pages fw a.after ∈ (pages fw a.before).saveStates a.saved := by
  induction h with
  | boot => exact absurd ha List.not_mem_nil
  | reboot h ih => exact ih ha
  | saved h hrun ih =>
      rcases List.mem_cons.mp ha with rfl | ha
      · exact ⟨h.running_eq, (crash_command _ _ _ rfl).1 _ hrun.visible⟩
      · exact ih ha
  | cut h hvis ih =>
      rcases List.mem_cons.mp ha with rfl | ha
      · exact ⟨h.running_eq, (crash_command _ _ _ rfl).1 _ hvis⟩
      · exact ih ha

/-- It can be cut while that page is being rewritten. -/
theorem visible_spoil (i : Invocation)
    (h1 : configIsValid fw m fw.config1 fw.configPageSize = true)
    (h2 : configIsValid fw m fw.config2 fw.configPageSize = true) :
    Prog.Visible (cutFlash fw) (commandConfigWriteToFlash fw i) m (spoil fw .first m) :=
  visible_firstPage ⟨rfl, rfl⟩ h2 (.inr (.inr ⟨(), m, rfl, .inr (.inl (pages_spoil h1))⟩))

/-- In every history, each attempt that did not meet a stale page 2 was atomic: the next boot
    loads the configuration in use before it or the one saved. At any point of it, the next
    attempt is sure to be atomic, wherever it is cut, exactly if it does not meet one. -/
theorem save_atomic_iff (h : History fw m running attempts) :
    (∀ a ∈ attempts, ¬ StalePage fw a.before a.saved →
      bootPage fw a.after = a.running ∨ bootPage fw a.after = some a.saved) ∧
    ∀ i, (∀ m', Prog.Visible (cutFlash fw) (commandConfigWriteToFlash fw i) m m' →
        bootPage fw m' = running ∨ bootPage fw m' = some (savedPage fw i)) ↔
      ¬ StalePage fw m (savedPage fw i) := by
  refine ⟨?_, fun i => ⟨?_, ?_⟩⟩
  · intro a ha hstale
    obtain ⟨hrunning, hstates⟩ := h.attempt ha
    rw [hrunning, bootPage_eq_load, bootPage_eq_load]
    exact Slots.load_of_not_stale (fun hs => hstale (stale_pages_iff.mp hs)) hstates
  · intro hatomic hstale
    have hload := hatomic _ (visible_spoil i hstale.1 hstale.2.1)
    rw [h.running_eq, bootPage_eq_load, bootPage_eq_load,
      pages_of_invalid (i := .first) (pages_spoil hstale.1)] at hload
    exact Slots.load_of_stale (stale_pages_iff.mpr hstale) hload
  · intro hstale m' hvis
    rw [h.running_eq, bootPage_eq_load, bootPage_eq_load]
    exact Slots.load_of_not_stale (fun hs => hstale (stale_pages_iff.mp hs))
      ((crash_command i m m rfl).1 m' hvis)

/-! ## Two saves that are cut -/

/-- A save of two valid pages can be cut when page 1 is done. -/
theorem visible_written (i : Invocation)
    (h1 : configIsValid fw m fw.config1 fw.configPageSize = true)
    (h2 : configIsValid fw m fw.config2 fw.configPageSize = true) :
    Prog.Visible (cutFlash fw) (commandConfigWriteToFlash fw i) m
      ((spoil fw .first m).blit fw.config1 (savedPage fw i)) := by
  have hlen := savedPage_length fw i
  have hsize := configPageSize_lt fw
  have hwrite : KeepsOther fw fw.config1 (spoil fw .first m)
      ((spoil fw .first m).blit fw.config1 (savedPage fw i)) ∧
      ((spoil fw .first m).blit fw.config1 (savedPage fw i)).read fw.config1
        (savedPage fw i).length = savedPage fw i :=
    ⟨keepsOther_blit .first _ (by omega), Mem.read_blit _ _ (by omega)⟩
  refine visible_firstPage ⟨rfl, rfl⟩ h2 ?_
  exact .inr (.inr ⟨(), m, rfl, .inr (.inr ⟨(), _, pages_spoil h1,
    .inr (.inr ⟨(), _, hwrite, .inl rfl⟩)⟩)⟩)

variable (fw) in
theorem pages_blit (slot : Slot) (m : Mem) (i : Invocation) :
    pages fw (m.blit (fw.configPage slot) (savedPage fw i)) =
      (pages fw m).set slot (some (savedPage fw i)) := by
  have hlen := savedPage_length fw i
  have hsize := configPageSize_lt fw
  exact pages_of_written ⟨keepsOther_blit slot m hlen.le, Mem.read_blit m _ (by omega)⟩

/-- A save of the configuration with this ID. -/
def saveId (id : UInt8) : Invocation := blankInvocation { blankConfig with ID := id }

/-- The page it writes. -/
def pageId (id : UInt8) : List UInt8 := savedPage nucleoFirmware (saveId id)

/-- The Nucleo board with a configuration with ID 1 in both pages. -/
def flashId1 : Mem :=
  (Mem.blit (fun _ => 0xFF) nucleoFirmware.config1 (pageId 1)).blit nucleoFirmware.config2
    (pageId 1)

/-- The same after a save of ID 2 that was cut when page 1 was done. -/
def flashId2 : Mem :=
  (spoil nucleoFirmware .first flashId1).blit nucleoFirmware.config1 (pageId 2)

theorem pageId_byte : ∀ id ∈ [1, 2, 3], (pageId id)[9]? = some id := by decide +kernel

theorem pageId_ne {a b : UInt8} (ha : a ∈ [1, 2, 3]) (hb : b ∈ [1, 2, 3]) (h : a ≠ b) :
    pageId a ≠ pageId b := by
  intro heq
  have hbyte := congrArg (fun page : List UInt8 => page[9]?) heq
  simp only [pageId_byte a ha, pageId_byte b hb, Option.some.injEq] at hbyte
  exact h hbyte

theorem pages_flashId1 :
    pages nucleoFirmware flashId1 = ⟨some (pageId 1), some (pageId 1)⟩ := by
  have h1 := pages_blit nucleoFirmware .first (fun _ => 0xFF) (saveId 1)
  have h2 := pages_blit nucleoFirmware .second
    (Mem.blit (fun _ => 0xFF) nucleoFirmware.config1 (pageId 1)) (saveId 1)
  exact h2.trans (congrArg (fun s : Slots (List UInt8) => s.set .second (some (pageId 1))) h1)

theorem pages_flashId2 :
    pages nucleoFirmware flashId2 = ⟨some (pageId 2), some (pageId 1)⟩ := by
  have h1 : PageValid nucleoFirmware .first flashId1 := by
    rw [← pageContent_isSome, ← pages_get, pages_flashId1]
    rfl
  have hspoil := pages_of_invalid (i := .first) (pages_spoil h1)
  rw [pages_flashId1] at hspoil
  have hwrite := pages_blit nucleoFirmware .first (spoil nucleoFirmware .first flashId1) (saveId 2)
  rw [hspoil] at hwrite
  exact hwrite

theorem valid_of_pages {page1 page2 : List UInt8} (h : pages fw m = ⟨some page1, some page2⟩) :
    configIsValid fw m fw.config1 fw.configPageSize = true ∧
      configIsValid fw m fw.config2 fw.configPageSize = true := by
  have hvalid : ∀ i, PageValid fw i m := by
    intro i
    rw [← pageContent_isSome, ← pages_get, h]
    cases i with
    | first => rfl
    | second => rfl
  exact ⟨hvalid .first, hvalid .second⟩

/-- The board boots with ID 1, and then with ID 2 after the save that was cut. -/
theorem history_flashId2 :
    History nucleoFirmware flashId2 (some (pageId 2))
      [⟨flashId1, some (pageId 1), pageId 2, flashId2⟩] := by
  have hboot : History nucleoFirmware flashId1 (bootPage nucleoFirmware flashId1) [] :=
    .boot flashId1
  obtain ⟨h1, h2⟩ := valid_of_pages pages_flashId1
  have hcut := History.cut hboot (visible_written (saveId 2) h1 h2)
  rw [bootPage_eq_load, bootPage_eq_load, pages_flashId1] at hcut
  have hload : (pages nucleoFirmware flashId2).load = some (pageId 2) := by
    rw [pages_flashId2]
    rfl
  rw [← hload]
  exact hcut

/-- The first save was atomic; a save of ID 3 may not be. -/
theorem save_atomic_iff_twice :
    (bootPage nucleoFirmware flashId2 = some (pageId 1) ∨
      bootPage nucleoFirmware flashId2 = some (pageId 2)) ∧
    ¬ ∀ m', Prog.Visible (cutFlash nucleoFirmware)
        (commandConfigWriteToFlash nucleoFirmware (saveId 3)) flashId2 m' →
      bootPage nucleoFirmware m' = some (pageId 2) ∨
        bootPage nucleoFirmware m' = some (savedPage nucleoFirmware (saveId 3)) := by
  obtain ⟨hpast, hnext⟩ := save_atomic_iff history_flashId2
  have hfirst := hpast ⟨flashId1, some (pageId 1), pageId 2, flashId2⟩ List.mem_cons_self
  have hsecond := hnext (saveId 3)
  dsimp only at hfirst
  refine ⟨hfirst fun hstale => ?_, fun hall => hsecond.mp hall ?_⟩
  · obtain ⟨x, y, hx, hy, hne, -⟩ := stale_pages_iff.mpr hstale
    rw [pages_flashId1] at hx hy
    exact hne (Option.some.inj (hy.symm.trans hx))
  · refine stale_pages_iff.mp ⟨pageId 2, pageId 1, ?_, ?_, ?_, ?_⟩
    · rw [pages_flashId2]
    · rw [pages_flashId2]
    · exact pageId_ne (by decide) (by decide) (by decide)
    · have hne : pageId 1 ≠ pageId 3 := pageId_ne (by decide) (by decide) (by decide)
      exact hne

/-- The board runs ID 2 when the save of ID 3 is cut, and boots with ID 1. -/
theorem older_configuration_loaded :
    History nucleoFirmware flashId2 (some (pageId 2))
      [⟨flashId1, some (pageId 1), pageId 2, flashId2⟩] ∧
    Prog.Visible (cutFlash nucleoFirmware)
      (commandConfigWriteToFlash nucleoFirmware (saveId 3)) flashId2
      (spoil nucleoFirmware .first flashId2) ∧
    bootPage nucleoFirmware (spoil nucleoFirmware .first flashId2) = some (pageId 1) ∧
    pageId 1 ≠ pageId 2 ∧ pageId 1 ≠ savedPage nucleoFirmware (saveId 3) := by
  obtain ⟨h1, h2⟩ := valid_of_pages pages_flashId2
  refine ⟨history_flashId2, visible_spoil (saveId 3) h1 h2, ?_, ?_, ?_⟩
  · rw [bootPage_eq_load, pages_of_invalid (i := .first) (pages_spoil h1), pages_flashId2]
    rfl
  · exact pageId_ne (by decide) (by decide) (by decide)
  · have hne : pageId 1 ≠ pageId 3 := pageId_ne (by decide) (by decide) (by decide)
    exact hne

end CanBootloader
