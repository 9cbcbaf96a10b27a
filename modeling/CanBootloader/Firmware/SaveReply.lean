/-
  What the reply to a save says about the two pages.

  Here the flash writer may do anything. A page that was rewritten is verified by its CRC, not by
  its bytes, so a page that is valid for another reason passes: with its old contents, if the
  writer did nothing. The reply is true to the pages if the faults of the writer show in the CRC
  (`save_truthful`): a page that is not stored must not be left valid.
-/
import CanBootloader.Firmware.SaveHistory
import CanBootloader.Firmware.Rounds

namespace CanBootloader

open Lib

variable {fw : Firmware} {σ : Type}

/-! ## Rewriting -/

/-- What a flash writer makes of the request to rewrite a page. -/
def Platform.rewrite (p : Platform σ) (page : UInt32) (data : List UInt8) (w : σ) : σ :=
  p.lock (p.pageWrite page data (p.pageErase page (p.unlock w)))

theorem returns_flashWriteAndVerify (p : Platform σ) (i : Slot) {data : List UInt8}
    (hdata : data.length = fw.configPageSize) (w : σ) :
    Prog.Returns p.handler (flashWriteAndVerify fw (fw.configPage i) data) w
      (configIsValid fw (p.mem (p.rewrite (fw.configPage i) data w)) (fw.configPage i)
        fw.configPageSize)
      (p.rewrite (fw.configPage i) data w) := by
  rw [← hdata]
  exact .call rfl (.call rfl (.call rfl (.call rfl (.call rfl (.ret _ _)))))

variable (fw)

/-- The page that is rewritten first. -/
def saveOrder (m : Mem) : Slot :=
  if configIsValid fw m fw.config2 fw.configPageSize then .first
  else if configIsValid fw m fw.config1 fw.configPageSize then .second
  else .first

variable {fw}

/-- The outcome of a save that rewrites page `i` and then the other one: successful if and only if
    each page is valid behind its own rewriting. -/
def RewritesBoth (fw : Firmware) (p : Platform σ) (save : Code Bool) (i : Slot)
    (data : List UInt8) (w : σ) : Prop :=
  let first := p.rewrite (fw.configPage i) data w
  let second := p.rewrite (fw.configPage i.other) data first
  ∃ b v, Prog.Returns p.handler save w b v ∧ (b = true → v = second) ∧
    (b = true ↔ PageValid fw i (p.mem first) ∧ PageValid fw i.other (p.mem second))

/-- The save that gives up if the first page is not valid. -/
theorem rewritesBoth_stop (p : Platform σ) (i : Slot) {data : List UInt8}
    (hdata : data.length = fw.configPageSize) (w : σ) :
    RewritesBoth fw p (do
      if ← flashWriteAndVerify fw (fw.configPage i) data then
        flashWriteAndVerify fw (fw.configPage i.other) data
      else return false) i data w := by
  have hfirst := returns_flashWriteAndVerify p i hdata w
  have hsecond := returns_flashWriteAndVerify p i.other hdata (p.rewrite (fw.configPage i) data w)
  unfold RewritesBoth PageValid
  cases hvalid : configIsValid fw (p.mem (p.rewrite (fw.configPage i) data w)) (fw.configPage i)
      fw.configPageSize with
  | true =>
      rw [hvalid] at hfirst
      exact ⟨_, _, hfirst.bind hsecond, fun _ => rfl, (and_iff_right hvalid).symm⟩
  | false =>
      rw [hvalid] at hfirst
      exact ⟨false, _, hfirst.bind (.ret false _), by simp, by simp [hvalid]⟩

/-- The save that rewrites the second page in any case. -/
theorem rewritesBoth_always (p : Platform σ) (i : Slot) {data : List UInt8}
    (hdata : data.length = fw.configPageSize) (w : σ) :
    RewritesBoth fw p (do
      let first ← flashWriteAndVerify fw (fw.configPage i) data
      let second ← flashWriteAndVerify fw (fw.configPage i.other) data
      return first && second) i data w := by
  have hfirst := returns_flashWriteAndVerify p i hdata w
  have hsecond := returns_flashWriteAndVerify p i.other hdata (p.rewrite (fw.configPage i) data w)
  exact ⟨_, _, hfirst.bind (hsecond.bind (.ret _ _)), fun _ => rfl, Bool.and_eq_true_iff⟩

theorem rewritesBoth_saveConfigPages (p : Platform σ) {data : List UInt8}
    (hdata : data.length = fw.configPageSize) (w : σ) :
    RewritesBoth fw p (saveConfigPages fw data) (saveOrder fw (p.mem w)) data w := by
  -- memory is read before anything else
  have hread : ∀ {k : Mem → Code Bool} {i : Slot}, RewritesBoth fw p (k (p.mem w)) i data w →
      RewritesBoth fw p (.call .memory k) i data w := by
    intro k i h
    obtain ⟨b, v, hrun, hrest⟩ := h
    exact ⟨b, v, .call rfl hrun, hrest⟩
  rw [saveConfigPages, readMemory, Prog.call_bind]
  refine hread ?_
  rw [Prog.ret_bind]
  unfold saveOrder
  split_ifs
  · exact rewritesBoth_stop p .first hdata w
  · exact rewritesBoth_stop p .second hdata w
  · exact rewritesBoth_always p .first hdata w

/-! ## Replies -/

/-- The reply is true only if both pages hold the serialisation of the configuration in RAM, which
    is then the one that a boot loads. -/
def TruthfulSave (fw : Firmware) (p : Platform σ) (i : Invocation)
    (o : Prog.Outcome σ Call Reply) : Prop :=
  ∃ r, o.value = some r ∧ (i.out.written r.out = Msgpack.bool true →
    (∀ j, (p.mem o.world).read (fw.configPage j) fw.configPageSize =
      configPageBuffer fw r.config) ∧
    bootPage fw (p.mem o.world) = some (configPageBuffer fw r.config))

/-- Some page passes for the bytes and does not hold them: behind its rewriting the CRC of either
    page fits, and in the end some page does not hold the bytes. -/
def HidesFault (fw : Firmware) (p : Platform σ) (data : List UInt8) (w : σ) : Prop :=
  let i := saveOrder fw (p.mem w)
  let first := p.rewrite (fw.configPage i) data w
  let second := p.rewrite (fw.configPage i.other) data first
  PageValid fw i (p.mem first) ∧ PageValid fw i.other (p.mem second) ∧
    ∃ j, (p.mem second).read (fw.configPage j) fw.configPageSize ≠ data

/-- A flash writer that rewrites a page without touching the other one, and whose faults show: a
    page that held what it holds in `m` has the bytes afterwards, or its CRC does not fit. -/
structure ShowsFaults (fw : Firmware) (p : Platform σ) (data : List UInt8) (m : Mem) : Prop where
  keeps : ∀ j w, KeepsOther fw (fw.configPage j) (p.mem w)
    (p.mem (p.rewrite (fw.configPage j) data w))
  shows : ∀ j w,
    (p.mem w).read (fw.configPage j) fw.configPageSize =
      m.read (fw.configPage j) fw.configPageSize →
    (p.mem (p.rewrite (fw.configPage j) data w)).read (fw.configPage j) fw.configPageSize = data ∨
      ¬ PageValid fw j (p.mem (p.rewrite (fw.configPage j) data w))

/-- The second page is as before the save when its turn comes, so its fault shows, too. -/
theorem ShowsFaults.not_hidesFault {p : Platform σ} {data : List UInt8} {w : σ}
    (h : ShowsFaults fw p data (p.mem w)) : ¬ HidesFault fw p data w := by
  intro hfault
  obtain ⟨hfirst, hsecond, j, hj⟩ := hfault
  generalize saveOrder fw (p.mem w) = i at hfirst hsecond hj
  have hunchanged := h.keeps i w i.other (configPage_ne_other fw i)
  apply hj
  rcases i.eq_or_eq_other j with rfl | rfl
  · rw [h.keeps j.other _ j (configPage_ne_other fw j).symm]
    exact (h.shows j w rfl).resolve_right (not_not.mpr hfirst)
  · exact (h.shows i.other _ hunchanged).resolve_right (not_not.mpr hsecond)

/-- What a save replies, and when the reply is true. -/
theorem run_save (hwrite : WriteLaw fw.cmp) (p : Platform σ) (w : σ) {i : Invocation}
    (hroom : i.out.pos < i.out.size) :
    let j := saveOrder fw (p.mem w)
    let first := p.rewrite (fw.configPage j) (savedPage fw i) w
    let second := p.rewrite (fw.configPage j.other) (savedPage fw i) first
    let o := Prog.run p.handler (commandConfigWriteToFlash fw i) w
    ∃ r, o.value = some r ∧ configPageBuffer fw r.config = savedPage fw i ∧
      (i.out.written r.out = Msgpack.bool true → o.world = second) ∧
      (i.out.written r.out = Msgpack.bool true ↔
        PageValid fw j (p.mem first) ∧ PageValid fw j.other (p.mem second)) := by
  intro j first second o
  obtain ⟨b, v, hrun, hworld, hiff⟩ := rewritesBoth_saveConfigPages p (savedPage_length fw i) w
  obtain ⟨hvalue, hend⟩ : Prog.Returns p.handler (commandConfigWriteToFlash fw i) w
      ⟨fw.cmp.writeBool i.out b, { i.config with updateCount := i.config.updateCount + 1 }⟩ v :=
    hrun.bind (.ret _ v)
  have hreply : i.out.written (fw.cmp.writeBool i.out b) = Msgpack.bool true ↔ b = true := by
    rw [hwrite.writeBool _ _ hroom, CmpWriter.written_put]
    cases b <;> decide
  refine ⟨_, hvalue, rfl, fun htrue => ?_, hreply.trans hiff⟩
  exact hend.trans (hworld (hreply.mp htrue))

/-- The reply is untrue exactly when a fault is hidden. -/
theorem truthfulSave_iff (hwrite : WriteLaw fw.cmp) (p : Platform σ) (w : σ) {i : Invocation}
    (hroom : i.out.pos < i.out.size) :
    TruthfulSave fw p i (Prog.run p.handler (commandConfigWriteToFlash fw i) w) ↔
      ¬ HidesFault fw p (savedPage fw i) w := by
  obtain ⟨r, hr, hconfig, hworld, hiff⟩ := run_save hwrite p w hroom
  constructor
  · intro htrue hfault
    obtain ⟨r', hr', hpages⟩ := htrue
    obtain ⟨hfirst, hsecond, j, hj⟩ := hfault
    obtain rfl := Option.some.inj (hr.symm.trans hr')
    have hreply := hiff.mpr ⟨hfirst, hsecond⟩
    have hholds := (hpages hreply).1 j
    rw [hworld hreply, hconfig] at hholds
    exact hj hholds
  · intro hfault
    refine ⟨r, hr, fun hreply => ?_⟩
    obtain ⟨hfirst, hsecond⟩ := hiff.mp hreply
    rw [hworld hreply, hconfig]
    have hholds := not_exists.mp fun hj => hfault ⟨hfirst, hsecond, hj⟩
    simp only [ne_eq, not_not] at hholds
    refine ⟨hholds, ?_⟩
    -- a boot reads page 1
    have hcontent := pageContent_of_write ((hholds .first).trans hconfig.symm)
    rw [bootPage_eq_load, pages, hcontent, hconfig]
    rfl

/-- A save replies true only if both pages hold the configuration in RAM, provided that the faults
    of the flash writer show. -/
theorem save_truthful (fw : Firmware) (hwrite : WriteLaw fw.cmp) (p : Platform σ) (w : σ)
    (i : Invocation) (hroom : i.out.pos < i.out.size)
    (hshow : ShowsFaults fw p (savedPage fw i) (p.mem w)) :
    TruthfulSave fw p i (Prog.run p.handler (commandConfigWriteToFlash fw i) w) :=
  (truthfulSave_iff hwrite p w hroom).mpr hshow.not_hidesFault

/-! ## A writer that drops writes -/

/-- Flash memory that drops the writes to the pages for which `works` is false, without a word. -/
def lossyPlatform (works : UInt32 → Bool) : Platform Mem where
  mem := fun m => m
  unlock := fun m => m
  lock := fun m => m
  pageErase := fun _ m => m
  pageWrite := fun page data m => if works page then m.blit page data else m

theorem read_blit_configPage (i : Slot) {m : Mem} {data : List UInt8}
    (hdata : data.length = fw.configPageSize) :
    (m.blit (fw.configPage i) data).read (fw.configPage i) fw.configPageSize = data := by
  have hsize := configPageSize_lt fw
  rw [← hdata]
  exact Mem.read_blit _ _ (by omega)

/-- A lost write shows if the page was not valid before. -/
theorem showsFaults_lossy {works : UInt32 → Bool} {data : List UInt8} {m : Mem}
    (hdata : data.length = fw.configPageSize)
    (hinvalid : ∀ j, works (fw.configPage j) = false → ¬ PageValid fw j m) :
    ShowsFaults fw (lossyPlatform works) data m := by
  constructor
  · intro j w
    simp only [lossyPlatform, Platform.rewrite]
    split_ifs
    · exact keepsOther_blit j w hdata.le
    · exact fun _ _ => rfl
  · intro j w hbefore
    simp only [lossyPlatform, Platform.rewrite] at hbefore ⊢
    split_ifs with hworks
    · exact .inl (read_blit_configPage j hdata)
    · right
      have hpage := hinvalid j (by simpa using hworks)
      rwa [PageValid, configIsValid_congr fw (by have := fw.configPageSize_gt; omega) hbefore]

/-- A write that is not lost leaves a valid page. -/
theorem valid_of_stored (i : Invocation) (j : Slot) (w : Mem) :
    let p := lossyPlatform fun _ => true
    PageValid fw j (p.mem (p.rewrite (fw.configPage j) (savedPage fw i) w)) := by
  have hread := read_blit_configPage j (m := w) (savedPage_length fw i)
  rw [← pageContent_isSome]
  simp [lossyPlatform, Platform.rewrite, pageContent_of_write hread]

/-- On valid pages the reply is true if all writes are dropped, whatever the pages hold. -/
theorem untruthful_of_dropped (hwrite : WriteLaw fw.cmp) {m : Mem}
    (hvalid : ∀ j, PageValid fw j m) {i : Invocation} (hroom : i.out.pos < i.out.size)
    (hboot : bootPage fw m ≠ savedPage fw i) :
    ¬ TruthfulSave fw (lossyPlatform fun _ => false) i
      (Prog.run (lossyPlatform fun _ => false).handler (commandConfigWriteToFlash fw i)
        m) := by
  obtain ⟨r, hr, hconfig, hworld, hiff⟩ := run_save hwrite (lossyPlatform fun _ => false) m hroom
  have hreply := hiff.mpr ⟨hvalid _, hvalid _⟩
  intro htrue
  obtain ⟨r', hr', hpages⟩ := htrue
  obtain rfl := Option.some.inj (hr.symm.trans hr')
  have hload := (hpages hreply).2
  rw [hworld hreply, hconfig] at hload
  exact hboot hload

theorem valid_flashId1 (j : Slot) : PageValid nucleoFirmware j flashId1 := by
  rw [← pageContent_isSome, ← pages_get, pages_flashId1]
  cases j with
  | first => rfl
  | second => rfl

/-- With no write dropped the reply to a save of ID 2 is true, and so are the pages. -/
theorem save_truthful_lossy :
    TruthfulSave nucleoFirmware (lossyPlatform fun _ => true) (saveId 2)
      (Prog.run (lossyPlatform fun _ => true).handler
        (commandConfigWriteToFlash nucleoFirmware (saveId 2)) flashId1) ∧
    ∃ r, (Prog.run (lossyPlatform fun _ => true).handler
        (commandConfigWriteToFlash nucleoFirmware (saveId 2)) flashId1).value = some r ∧
      (saveId 2).out.written r.out = Msgpack.bool true := by
  refine ⟨save_truthful nucleoFirmware Cmp.reference_write _ flashId1 (saveId 2) (by decide)
    (showsFaults_lossy (savedPage_length _ _) (by simp)), ?_⟩
  obtain ⟨r, hr, -, -, hiff⟩ := run_save (show WriteLaw nucleoFirmware.cmp from
    Cmp.reference_write) (lossyPlatform fun _ => true) flashId1 (i := saveId 2) (by decide)
  exact ⟨r, hr, hiff.mpr ⟨valid_of_stored _ _ _, valid_of_stored _ _ _⟩⟩

/-- The reply to a save of ID 2 is true, and both pages still hold ID 1. -/
theorem save_of_nothing :
    ¬ TruthfulSave nucleoFirmware (lossyPlatform fun _ => false) (saveId 2)
      (Prog.run (lossyPlatform fun _ => false).handler
        (commandConfigWriteToFlash nucleoFirmware (saveId 2)) flashId1) := by
  refine untruthful_of_dropped Cmp.reference_write valid_flashId1 (by decide) ?_
  rw [bootPage_eq_load, pages_flashId1]
  intro hboot
  exact pageId_ne (by decide) (by decide) (by decide) (Option.some.inj hboot)

end CanBootloader
