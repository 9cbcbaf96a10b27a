/-
  A configuration save never leaves the board without a valid page.

  The flash writer is taken at its worst (`tornFlash`): an erase or a write may leave anything
  in the page it targets, at its end as well as while it lasts, and only leaves the other
  configuration page alone. Rewriting a page keeps a valid other page valid, and reports
  success only if the page is valid again (`crash_flashWriteAndVerify`); the update order
  begins with a page whose loss can be borne (`save_keeps_valid_page`).
-/
import CanBootloader.Firmware.Command
import CanBootloader.Lib.TwoSlots

namespace CanBootloader

open Lib

variable (fw : Firmware)

/-- The address of a configuration page. -/
def Firmware.configPage : Slot → UInt32
  | .first => fw.config1
  | .second => fw.config2

theorem configPage_ne_other (i : Slot) : fw.configPage i.other ≠ fw.configPage i := by
  have hlt := UInt32.lt_iff_toNat_lt.mp fw.config1_lt
  cases i with
  | first =>
      intro h
      rw [show fw.config2 = fw.config1 from h] at hlt
      omega
  | second =>
      intro h
      rw [show fw.config1 = fw.config2 from h] at hlt
      omega

theorem configPageSize_lt : fw.configPageSize < 2 ^ 32 := by
  have h1 := fw.config1_end
  have hlt := fw.config2.toNat_lt
  omega

/-- The page in slot `i` is valid. -/
def PageValid (i : Slot) (m : Mem) : Prop :=
  configIsValid fw m (fw.configPage i) fw.configPageSize = true

/-- The configuration page that is not at `page` keeps its bytes. -/
def KeepsOther (page : UInt32) (m m' : Mem) : Prop :=
  ∀ i, fw.configPage i ≠ page →
    m'.read (fw.configPage i) fw.configPageSize = m.read (fw.configPage i) fw.configPageSize

variable {fw}

theorem KeepsOther.valid {i : Slot} {m m' : Mem} (h : KeepsOther fw (fw.configPage i) m m') :
    PageValid fw i.other m' ↔ PageValid fw i.other m := by
  have hsize := fw.configPageSize_gt
  unfold PageValid
  rw [configIsValid_congr fw (by omega) (h i.other (configPage_ne_other fw i))]

/-- Each page is a page size away from the other, in both directions around memory. -/
theorem configPage_apart {i j : Slot} (h : fw.configPage j ≠ fw.configPage i) {k : Nat}
    (hk : k < fw.configPageSize) :
    fw.configPageSize ≤ (fw.configPage j + UInt32.ofNat k - fw.configPage i).toNat := by
  have h1 := fw.config1_end
  have h2 := fw.config2_end
  have happ := fw.app.toNat_lt
  cases i with
  | first =>
      cases j with
      | first => exact absurd rfl h
      | second =>
          rw [Firmware.configPage, Firmware.configPage, UInt32.toNat_sub, UInt32.toNat_add,
            UInt32.toNat_ofNat']
          omega
  | second =>
      cases j with
      | first =>
          rw [Firmware.configPage, Firmware.configPage, UInt32.toNat_sub, UInt32.toNat_add,
            UInt32.toNat_ofNat']
          omega
      | second => exact absurd rfl h

theorem keepsOther_blit (i : Slot) (m : Mem) {bs : List UInt8}
    (hbs : bs.length ≤ fw.configPageSize) :
    KeepsOther fw (fw.configPage i) m (m.blit (fw.configPage i) bs) := by
  intro j hj
  apply Store.slice_congr
  intro k hk
  exact Mem.blit_other m (le_trans hbs (configPage_apart hj (by simpa using hk)))

variable (fw)

/-- A flash writer that may leave anything in the page it targets. -/
def tornFlash : Prog.Semantics Call Call.Resp Mem where
  done
    | .flashWriterUnlock, m, _, m' => m' = m
    | .flashWriterLock, m, _, m' => m' = m
    | .flashWriterPageErase page, m, _, m' => KeepsOther fw page m m'
    | .flashWriterPageWrite page _, m, _, m' => KeepsOther fw page m m'
    | .memory, m, r, m' => r = m ∧ m' = m
    | .rebootSystem _, _, _, _ => False
  during
    | .flashWriterPageErase page, m, m' => KeepsOther fw page m m'
    | .flashWriterPageWrite page _, m, m' => KeepsOther fw page m m'
    | _, _, _ => False

/-- Rewriting one page while the other one is valid. -/
theorem crash_flashWriteAndVerify (i : Slot) {data : List UInt8}
    (hdata : data.length = fw.configPageSize) :
    Prog.Crash (tornFlash fw) (PageValid fw i.other)
      (flashWriteAndVerify fw (fw.configPage i) data) (PageValid fw i.other)
      (fun b m => PageValid fw i.other m ∧ (b = true → PageValid fw i m)) := by
  have hkeep : ∀ m m', PageValid fw i.other m → KeepsOther fw (fw.configPage i) m m' →
      PageValid fw i.other m' := fun m m' hm h => h.valid.mpr hm
  -- unlock, erase, write, lock, verify
  refine .silent (fun _ _ _ h => h) (fun _ _ h => h) (fun _ h => h) fun _ => ?_
  refine .call (fun _ => PageValid fw i.other) (fun _ h => h) hkeep (fun m _ m' => hkeep m m')
    fun _ => ?_
  refine .call (fun _ => PageValid fw i.other) (fun _ h => h) hkeep (fun m _ m' => hkeep m m')
    fun _ => ?_
  refine .silent (fun _ _ _ h => h) (fun _ _ h => h) (fun _ h => h) fun _ => ?_
  refine .read (fun r m => r = m) (fun _ _ _ h => h.symm) (fun _ _ h => h) (fun _ h => h)
    fun r => ?_
  refine .ret (fun _ h => h.1) fun m h => ⟨h.1, fun hvalid => ?_⟩
  rw [hdata, h.2] at hvalid
  exact hvalid

/-- At least one page is valid. -/
def SomePageValid (m : Mem) : Prop := PageValid fw .first m ∨ PageValid fw .second m

theorem somePageValid_of {i : Slot} {m : Mem} (h : PageValid fw i m) : SomePageValid fw m := by
  cases i with
  | first => exact .inl h
  | second => exact .inr h

/-- Rewriting page `i`, and then the other one if that was successful. -/
theorem crash_both (i : Slot) {data : List UInt8} (hdata : data.length = fw.configPageSize) :
    Prog.Crash (tornFlash fw) (PageValid fw i.other)
      (do
        if ← flashWriteAndVerify fw (fw.configPage i) data then
          flashWriteAndVerify fw (fw.configPage i.other) data
        else return false)
      (SomePageValid fw) (fun _ => SomePageValid fw) := by
  have hfirst := (crash_flashWriteAndVerify fw i hdata).weaken (fun _ h => h)
    (fun _ h => somePageValid_of fw h) (fun _ _ h => h)
  refine hfirst.bind fun b => ?_
  cases b with
  | false =>
      exact .ret (fun m h => somePageValid_of fw h.1) fun m h => somePageValid_of fw h.1
  | true =>
      have hother : i.other.other = i := by cases i <;> rfl
      have hsecond := crash_flashWriteAndVerify fw i.other hdata
      rw [hother] at hsecond
      exact hsecond.weaken (fun _ h => h.2 rfl) (fun _ h => somePageValid_of fw h)
        fun _ _ h => somePageValid_of fw h.1

theorem configPageBuffer_length (config : BootloaderConfig) :
    (configPageBuffer fw config).length = fw.configPageSize := by
  simp [configPageBuffer]

theorem crash_saveConfigPages {data : List UInt8} (hdata : data.length = fw.configPageSize) :
    Prog.Crash (tornFlash fw) (SomePageValid fw) (saveConfigPages fw data) (SomePageValid fw)
      (fun _ => SomePageValid fw) := by
  rw [saveConfigPages, readMemory, Prog.call_bind]
  refine .read (fun r m => r = m) (fun _ _ _ h => h.symm) (fun _ _ h => h) (fun _ h => h)
    fun r => ?_
  rw [Prog.ret_bind]
  split_ifs with hsecond hfirst
  · refine (crash_both fw .first hdata).weaken ?_ (fun _ h => h) fun _ _ h => h
    rintro m ⟨-, rfl⟩
    exact hsecond
  · refine (crash_both fw .second hdata).weaken ?_ (fun _ h => h) fun _ _ h => h
    rintro m ⟨-, rfl⟩
    exact hfirst
  · -- no page is valid
    rintro m ⟨h | h, rfl⟩
    · exact absurd h hfirst
    · exact absurd h hsecond

/-- If some page is valid when a save begins, some page is valid at every moment of it, also
    where power may be lost or the save gives up. -/
theorem save_keeps_valid_page (fw : Firmware) (i : Invocation) (m m' : Mem)
    (hvalid : configIsValid fw m fw.config1 fw.configPageSize = true ∨
      configIsValid fw m fw.config2 fw.configPageSize = true)
    (h : Prog.Visible (tornFlash fw) (commandConfigWriteToFlash fw i) m m') :
    configIsValid fw m' fw.config1 fw.configPageSize = true ∨
      configIsValid fw m' fw.config2 fw.configPageSize = true := by
  have hsave := crash_saveConfigPages fw
    (configPageBuffer_length fw { i.config with updateCount := i.config.updateCount + 1 })
  have hcommand : Prog.Crash (tornFlash fw) (SomePageValid fw) (commandConfigWriteToFlash fw i)
      (SomePageValid fw) (fun _ => SomePageValid fw) :=
    hsave.bind fun _ => .ret (fun _ h => h) fun _ h => h
  exact (hcommand m hvalid).1 m' h

variable {fw} in
/-- A save begins with page 1 if page 2 is valid. -/
theorem visible_firstPage {S : Prog.Semantics Call Call.Resp Mem} {i : Invocation} {m m' : Mem}
    (hmemory : S.done .memory m m m)
    (h2 : configIsValid fw m fw.config2 fw.configPageSize = true)
    (h : Prog.Visible S (flashWriteAndVerify fw fw.config1
      (configPageBuffer fw { i.config with updateCount := i.config.updateCount + 1 })) m m') :
    Prog.Visible S (commandConfigWriteToFlash fw i) m m' := by
  refine Prog.Visible.bind_left ?_
  rw [saveConfigPages, readMemory, Prog.call_bind]
  refine .inr (.inr ⟨m, m, hmemory, ?_⟩)
  beta_reduce
  rw [Prog.ret_bind, if_pos h2]
  exact Prog.Visible.bind_left h

/-- The Nucleo board with a valid page 2; power is lost when one byte of page 1 is erased. -/
theorem save_keeps_valid_page_torn :
    let m := Mem.blit (fun _ => 0) nucleoFirmware.config2
      (configPageBuffer nucleoFirmware blankConfig)
    let m' := m.blit nucleoFirmware.config1 [0xFF]
    configIsValid nucleoFirmware m' nucleoFirmware.config1 nucleoFirmware.configPageSize = true ∨
      configIsValid nucleoFirmware m' nucleoFirmware.config2 nucleoFirmware.configPageSize =
        true := by
  intro m m'
  have hvalid : configIsValid nucleoFirmware m nucleoFirmware.config2
      nucleoFirmware.configPageSize = true := by
    apply configIsValid_of_write nucleoFirmware (.inr rfl)
    rw [← configPageBuffer, ← configPageBuffer_length nucleoFirmware blankConfig]
    apply Mem.read_blit
    rw [configPageBuffer_length]
    decide
  have hkeep : KeepsOther nucleoFirmware nucleoFirmware.config1 m m' :=
    keepsOther_blit .first m (by decide)
  exact save_keeps_valid_page nucleoFirmware (blankInvocation blankConfig) m m' (.inr hvalid)
    (visible_firstPage ⟨rfl, rfl⟩ hvalid (.inr (.inr ⟨(), m, rfl, .inr (.inl hkeep)⟩)))

end CanBootloader
