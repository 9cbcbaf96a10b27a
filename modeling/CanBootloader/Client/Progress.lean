/-
  A flash session that nothing disturbs, as a board sees it.

  The board executes every request of `flash_image` once, in order. The erases leave the pages of
  the image erased, so that each write finds its target erased, and all replies are a success
  (`flash_progresses`).
-/
import CanBootloader.Client.FlashSession
import CanBootloader.Client.Lossless
import CanBootloader.Firmware.Eraser

namespace CanBootloader

open Lib

variable {fw : Firmware} {σ : Type} {p : Platform σ} {Programs : UInt32 → List UInt8 → Prop}
  {Ready : σ → Prop} {unpackb : Unpackb} {t : FlashImage}

/-- Boards that also erase pages of this size. -/
structure ErasingBoards (fw : Firmware) (p : Platform σ)
    (Programs : UInt32 → List UInt8 → Prop) (pageSize : Nat) (Ready : σ → Prop) : Prop
    extends WorkingBoards fw p Programs where
  eraser : EraserLaws fw p Programs pageSize Ready
  retries : fw.flashEraseRetries ≠ 0

/-- The image begins where the application does, and its last page ends within flash memory. The
    erase command looks at no more than a page. -/
structure FlashImage.FitsPages (t : FlashImage) (fw : Firmware) : Prop where
  base_eq : t.baseAddress = fw.app.toNat
  binary_ne : t.binary ≠ []
  page_le : ∀ offset ∈ pyRange t.binary.length t.pageSize,
    t.baseAddress + offset + t.pageSize ≤ fw.flashEnd.toNat
  class_le : t.deviceClass.length ≤ t.pageSize

/-! ## Memory -/

/-- Memory from one address up to another is erased. -/
def ErasedBetween (m : Mem) (low high : Nat) : Prop :=
  ∀ x : UInt32, low ≤ x.toNat → x.toNat < high → m x = 0xFF

theorem ErasedBetween.read {m : Mem} {address : UInt32} {len high : Nat}
    (h : ErasedBetween m address.toNat high) (hlen : address.toNat + len ≤ high)
    (hhigh : high ≤ 2 ^ 32) : ∀ b ∈ m.read address len, b = 0xFF := by
  intro b hb
  obtain ⟨i, hi, rfl⟩ := List.mem_map.mp hb
  have hi := List.mem_range.mp hi
  have hnat : (address + UInt32.ofNat (0 + i)).toNat = address.toNat + (0 + i) :=
    toNat_add_ofNat (by omega)
  exact h _ (by omega) (by omega)

/-- No chunk of an image is empty. -/
theorem sliceIntoPages_ne_nil {data : List UInt8} (pageSize : ℕ+) (hne : data ≠ []) :
    ∀ chunk ∈ sliceIntoPages data pageSize, chunk ≠ [] := by
  fun_induction sliceIntoPages data pageSize with
  | case1 data hmore ih =>
      have hpos := pageSize.pos
      refine List.forall_mem_cons.mpr ⟨?_, ih ?_⟩
      · exact fun h => hne (List.take_eq_nil_iff.mp h |>.resolve_left (by omega))
      · exact fun h => absurd (List.drop_eq_nil_iff.mp h) (by omega)
  | case2 data hlast => simpa using hne

/-! ## Requests -/

theorem result_of_success (unpackb : Unpackb) :
    unpackb.result (Msgpack.uint 1) = .number 1 ∧
      unpackb.result (Msgpack.bool true) = .number 1 :=
  ⟨unpackb.result_number (by decide), unpackb.result_number (by decide)⟩

theorem not_complaint_bool (p : Platform σ) (b : Bool) :
    ¬ (firmwareBoards fw p).Complaint (Msgpack.bool b) := by
  cases b <;> rintro (h | h) <;> cases h

variable {rest : List PlanStep}

/-- The writes: what is behind each of them is erased. -/
theorem progresses_writes (h : ErasingBoards fw p Programs t.pageSize Ready)
    (hlen : t.deviceClass.length ≤ 63)
    (hrest : ∀ n, Progresses (firmwareBoards fw p) unpackb rest n) (chunks : List (List UInt8)) :
    ∀ (address : Nat) (n : Board σ), fw.app.toNat ≤ address → (∀ chunk ∈ chunks, chunk ≠ []) →
      address + chunks.flatten.length ≤ fw.flashEnd.toNat →
      (∀ data base, FlashRequest.write data base ∈ writesFrom address chunks →
        Programs (UInt32.ofNat base) data) →
      beforeNul t.deviceClass = cString n.config.deviceClass →
      ErasedBetween (p.mem n.world) address (address + chunks.flatten.length) →
      Progresses (firmwareBoards fw p) unpackb
        ((writesFrom address chunks).map t.step ++ rest) n := by
  induction chunks with
  | nil => exact fun _ n _ _ _ _ _ _ => hrest n
  | cons chunk chunks ih =>
      intro address n happ hne hend hprog hclass herased a n' hexec
      have hflash := fw.flashEnd.toNat_lt
      have hregion := fw.app_end
      obtain ⟨hchunk, hne⟩ := List.forall_mem_cons.mp hne
      have hpos := List.length_pos_of_ne_nil hchunk
      rw [List.flatten_cons, List.length_append] at hend herased
      have haddress : (UInt32.ofNat address).toNat = address :=
        UInt32.toNat_ofNat_of_lt' (show address < 2 ^ 32 by omega)
      have hboard : ForBoard fw n.config (UInt32.ofNat address) t.deviceClass := by
        refine ⟨?_, ?_, hclass⟩
        · rw [UInt32.le_iff_toNat_le, haddress]
          exact happ
        · rw [UInt32.lt_iff_toNat_lt, UInt32.toNat_add, haddress]
          omega
      rw [← haddress] at herased
      have htarget : Erased p n (UInt32.ofNat address) chunk.length :=
        herased.read (by omega) (by omega)
      rw [FlashImage.step_command] at hexec
      cases hexec.write h.read h.readStr h.write h.room (by omega) hlen (by omega) with
      | refused code hcode hbytes hcalls hwhy => exact absurd htarget (hwhy hboard).2
      | accepted =>
          refine ⟨⟨fun _ => (result_of_success unpackb).2, not_complaint_bool p true⟩, ?_⟩
          refine ih (address + chunk.length) _ (by omega) hne (by omega) (fun data base hmem =>
            hprog data base (List.mem_cons_of_mem _ hmem)) hclass fun x hlow hhigh => ?_
          refine h.eraser.write hboard.app_le (lt_flashEnd_of_app hboard.lt_end) (by omega)
            (hprog _ _ List.mem_cons_self) htarget x (by omega) (herased x (by omega) (by omega))

/-- The erases: what was erased before stays so. -/
theorem progresses_erases (h : ErasingBoards fw p Programs t.pageSize Ready)
    (hbase : t.baseAddress = fw.app.toNat) (hlen : t.deviceClass.length ≤ 63)
    (hclass_le : t.deviceClass.length ≤ t.pageSize) (offsets : List Nat) :
    ∀ n : Board σ, Ready n.world → beforeNul t.deviceClass = cString n.config.deviceClass →
      (∀ offset ∈ offsets, (t.pageSize : Nat) ∣ offset ∧
        t.baseAddress + offset + t.pageSize ≤ fw.flashEnd.toNat) →
      (∀ n' : Board σ, n'.config = n.config →
        (∀ x, p.mem n.world x = 0xFF → p.mem n'.world x = 0xFF) →
        (∀ offset ∈ offsets, ErasedBetween (p.mem n'.world) (t.baseAddress + offset)
          (t.baseAddress + offset + t.pageSize)) →
        Progresses (firmwareBoards fw p) unpackb rest n') →
      Progresses (firmwareBoards fw p) unpackb
        ((offsets.map fun offset => FlashRequest.erase (t.baseAddress + offset)).map t.step ++
          rest) n := by
  induction offsets with
  | nil => exact fun n _ _ _ hrest => hrest n rfl (fun _ hx => hx) (by simp)
  | cons offset offsets ih =>
      intro n hready hclass hoffsets hrest a n' hexec
      have hflash := fw.flashEnd.toNat_lt
      have hregion := fw.app_end
      have hpos := t.pageSize.pos
      obtain ⟨⟨hdvd, hend⟩, hoffsets⟩ := List.forall_mem_cons.mp hoffsets
      let address := UInt32.ofNat (t.baseAddress + offset)
      have haddress : address.toNat = t.baseAddress + offset :=
        UInt32.toNat_ofNat_of_lt' (show t.baseAddress + offset < 2 ^ 32 by omega)
      have happ : fw.app ≤ address := by
        rw [UInt32.le_iff_toNat_le, haddress]
        omega
      have hboard : ForBoard fw n.config address t.deviceClass := by
        refine ⟨happ, ?_, hclass⟩
        rw [UInt32.lt_iff_toNat_lt, UInt32.toNat_add, haddress]
        omega
      obtain ⟨hready', herased, hspared⟩ := h.eraser.erase hready happ
        (by rw [haddress, hbase, Nat.add_sub_cancel_left]; exact hdvd) (by omega)
      have hpage : ErasedBetween (p.mem (eraseAttempt p address n.world)) address.toNat
          (address.toNat + t.pageSize) :=
        fun x hlow hhigh => herased x (UInt32.le_iff_toNat_le.mpr hlow) hhigh
      rw [FlashImage.step_command] at hexec
      obtain ⟨hbytes, rfl⟩ := hexec.erase_first h.read h.readStr h.write h.room h.retries
        (by omega) hlen hboard (hpage.read (by omega) (by omega))
      refine ⟨⟨fun _ => ?_, ?_⟩, ?_⟩
      · exact (congrArg unpackb.result hbytes).trans (result_of_success unpackb).1
      · show ¬ (firmwareBoards fw p).Complaint a.bytes
        rw [hbytes]
        rintro (heq | heq) <;> cases heq
      · refine ih _ hready' hclass hoffsets fun n' hconfig hspare hpages => ?_
        refine hrest n' hconfig (fun x hx => hspare x (hspared x hx)) ?_
        refine List.forall_mem_cons.mpr ⟨fun x hlow hhigh => ?_, hpages⟩
        rw [← haddress] at hlow hhigh
        exact hspare x (hpage x hlow hhigh)

/-- The update and the save: their answers are not looked at. -/
theorem progresses_config (h : WorkingBoards fw p Programs) (items : List (List UInt8 × Argument))
    (n : Board σ) : Progresses (firmwareBoards fw p) unpackb
      (configUpdateAndSave items t.destinations t.difference) n := by
  intro a n' hupdate
  have hbytes := boardExec.update_bytes h.read h.write h.room hupdate
  refine ⟨⟨fun hfatal => absurd rfl hfatal, ?_⟩, fun a' n'' hsave => ?_⟩
  · show ¬ (firmwareBoards fw p).Complaint a.bytes
    rw [hbytes]
    exact not_complaint_bool p true
  · obtain ⟨b, hbytes'⟩ := boardExec.save_bytes h.read h.write h.room hsave
    refine ⟨⟨fun hfatal => absurd rfl hfatal, ?_⟩, trivial⟩
    show ¬ (firmwareBoards fw p).Complaint a'.bytes
    rw [hbytes']
    exact not_complaint_bool p b

/-- A board of this device class accepts the whole session. -/
theorem flash_progresses (h : ErasingBoards fw p Programs t.pageSize Ready)
    (hfits : t.Fits fw Programs) (hpages : t.FitsPages fw) {n : Board σ} (hready : Ready n.world)
    (hclass : beforeNul t.deviceClass = cString n.config.deviceClass) :
    Progresses (firmwareBoards fw p) unpackb t.plan n := by
  have hflatten := sliceIntoPages_flatten t.binary t.pageSize
  have hprog := hfits.programs
  have hend := hfits.end_le
  rw [FlashImage.requests, flashImage_eq] at hprog
  rw [FlashImage.plan, FlashImage.requests, flashImage_eq, List.map_append, List.append_assoc]
  refine progresses_erases h hpages.base_eq hfits.deviceClass_le hpages.class_le _ n hready hclass
    (fun offset hoffset => ⟨?_, hpages.page_le offset hoffset⟩) fun n' hconfig _ herased => ?_
  · obtain ⟨k, -, rfl⟩ := List.mem_map.mp hoffset
    exact Nat.dvd_mul_left _ _
  refine progresses_writes h hfits.deviceClass_le
    (progresses_config h.toWorkingBoards _) _ t.baseAddress n' hpages.base_eq.ge
    (sliceIntoPages_ne_nil t.pageSize hpages.binary_ne) (by rwa [hflatten])
    (fun data base hmem => hprog data base (List.mem_append_right _ hmem)) (hconfig ▸ hclass) ?_
  -- each byte of the image is in a page that was erased
  intro x hlow hhigh
  rw [hflatten] at hhigh
  have hpos := t.pageSize.pos
  have hfirst := Nat.div_mul_le_self (x.toNat - t.baseAddress) t.pageSize
  have hlast := Nat.lt_div_mul_add (a := x.toNat - t.baseAddress) hpos
  exact herased _ (mem_pyRange t.pageSize (show x.toNat - t.baseAddress < t.binary.length by omega))
    x (by omega) (by omega)

end CanBootloader
