/-
  bootloader_flash.py, `flash_image`, over the main loops of the boards.

  A session on the wire is one on the lossy bus, so what holds of sessions that end without errors
  holds down to the frames that the boards get and send:

  * `flash_over_wire`: the image is stored on all destinations, which start it from their next
    reset on, and no other board has changed.
  * `flash_lossless`: when nothing is lost, a session does not end in another way.
  * `flash_completes`: such a session there is, for every board that is alone on the wire.
-/
import CanBootloader.Client.Alone
import CanBootloader.Client.Progress

namespace CanBootloader

open Lib

/-! ## Commands -/

/-- No chunk is longer than a page. -/
theorem sliceIntoPages_length_le (data : List UInt8) (pageSize : ℕ+) :
    ∀ chunk ∈ sliceIntoPages data pageSize, chunk.length ≤ pageSize := by
  induction data using sliceIntoPages.induct pageSize with
  | case1 data hmore ih =>
      rw [sliceIntoPages, if_pos hmore]
      refine List.forall_mem_cons.mpr ⟨?_, ih⟩
      rw [List.length_take]
      exact min_le_left _ _
  | case2 data hlast =>
      rw [sliceIntoPages, if_neg hlast]
      simpa using hlast

theorem mem_writesFrom {data : List UInt8} {address : Nat} (chunks : List (List UInt8)) :
    ∀ base : Nat, FlashRequest.write data address ∈ writesFrom base chunks → data ∈ chunks := by
  induction chunks with
  | nil => exact fun _ h => absurd h List.not_mem_nil
  | cons chunk chunks ih =>
      intro base h
      rcases List.mem_cons.mp h with heq | h
      · rw [FlashRequest.write.injEq] at heq
        exact heq.1 ▸ List.mem_cons_self
      · exact List.mem_cons_of_mem _ (ih _ h)

/-- A command of the session is no longer than a page and its arguments. -/
theorem FlashImage.command_le {t : FlashImage} (hlen : t.deviceClass.length ≤ 63) :
    ∀ step ∈ t.plan, step.call.command.length ≤ t.pageSize + 85 := by
  have hclass := Msgpack.strHeader_length_le (show t.deviceClass.length < 2 ^ 8 by omega)
  simp only [FlashImage.plan, configUpdateAndSave, List.forall_mem_append, List.forall_mem_cons,
    List.forall_mem_map]
  refine ⟨fun request hrequest => ?_, ?_, ?_, by simp⟩
  · rw [FlashImage.step_command]
    cases request with
    | erase address =>
        have haddress := Msgpack.uint_length_le address
        have hcommand : (encodeEraseFlashPage address t.deviceClass).length =
            3 + (Msgpack.uint address).length + (Msgpack.strHeader t.deviceClass.length).length +
              t.deviceClass.length := by
          simp [encodeEraseFlashPage, encodeCommand, Argument.pack, clientCommandSetVersion,
            CommandType.erase, Msgpack.arrayHeader, Msgpack.uint]
          omega
        rw [FlashRequest.command, hcommand]
        omega
    | write data address =>
        have haddress := Msgpack.uint_length_le address
        have hheader := Msgpack.binHeader_length_le data.length
        have hdata : data.length ≤ t.pageSize := by
          rw [FlashImage.requests, flashImage_eq] at hrequest
          rcases List.mem_append.mp hrequest with h | h
          · obtain ⟨offset, -, heq⟩ := List.mem_map.mp h
            cases heq
          · exact sliceIntoPages_length_le _ _ _ (mem_writesFrom _ _ h)
        have hcommand : (encodeWriteFlash data address t.deviceClass).length =
            3 + (Msgpack.uint address).length + (Msgpack.strHeader t.deviceClass.length).length +
              t.deviceClass.length + (Msgpack.binHeader data.length).length + data.length := by
          simp [encodeWriteFlash, encodeCommand, Argument.pack, clientCommandSetVersion,
            CommandType.write, Msgpack.arrayHeader, Msgpack.uint]
          omega
        rw [FlashRequest.command, hcommand]
        omega
  · have hsize := Msgpack.uint_length_le t.binary.length
    have hcrc := Msgpack.uint_length_le t.crc
    have hcommand : encodeUpdateConfig (applicationItems t.binary.length t.crc) =
        [3, 7, 0x91, 0x82] ++ (Argument.str (ascii "application_size")).pack ++
          Msgpack.uint t.binary.length ++ (Argument.str (ascii "application_crc")).pack ++
          Msgpack.uint t.crc := by
      simp only [encodeUpdateConfig, applicationItems, packDict, List.flatMap_cons,
        List.flatMap_nil, List.append_nil, List.append_assoc]
      rfl
    have hkeys : (Argument.str (ascii "application_size")).pack.length = 17 ∧
        (Argument.str (ascii "application_crc")).pack.length = 16 := by decide
    simp only [hcommand, List.length_append, List.length_cons, List.length_nil, hkeys]
    omega
  · exact (show encodeSaveConfig.length = 3 by decide).trans_le (by omega)

section Commands

variable {fw : Firmware} {σ : Type} {p : Platform σ} {Programs : UInt32 → List UInt8 → Prop}
  {t : FlashImage}

/-- The commands of the session and the IDs of its destinations fit the buffers of the boards. -/
structure FlashImage.FitsBuffers (t : FlashImage) (fw : Firmware) : Prop where
  pageSize_le : t.pageSize + 85 ≤ fw.inputBufferSize
  destinations_ne : t.destinations ≠ []
  destinations_le : t.destinations.length ≤ 128

/-- All calls of the session are for its destinations, from source 0, and send something. -/
theorem FlashImage.plan_calls (t : FlashImage) : ∀ step ∈ t.plan,
    step.call.source = 0 ∧ step.call.destinations = t.destinations ∧ step.call.command ≠ [] := by
  simp only [FlashImage.plan, configUpdateAndSave, List.forall_mem_append, List.forall_mem_cons,
    List.forall_mem_map]
  refine ⟨fun request _ => ?_, ⟨trivial, trivial, List.cons_ne_nil _ _⟩,
    ⟨trivial, trivial, by decide⟩, by simp⟩
  cases request <;> exact ⟨rfl, rfl, List.cons_ne_nil _ _⟩

theorem FlashImage.sendable (h : WorkingBoards fw p Programs) (hfits : t.Fits fw Programs)
    (hbuffers : t.FitsBuffers fw) : ∀ step ∈ t.plan, step.call.Sendable fw p := by
  intro step hstep
  obtain ⟨hsource, hdest, hne⟩ := t.plan_calls step hstep
  exact ⟨hsource, hne, (t.command_le hfits.deviceClass_le step hstep).trans hbuffers.pageSize_le,
    hdest ▸ hbuffers.destinations_ne,
    t.keepsId h.read h.readStr h.write h.room h.writer hfits step hstep⟩

/-- Destinations that are there have IDs that the client can encode. -/
theorem FlashImage.sends (hlen : t.deviceClass.length ≤ 63) (hbuffers : t.FitsBuffers fw)
    (hids : ∀ d ∈ t.destinations, d < 256) : ∀ step ∈ t.plan,
      (writeCommand step.call.command t.destinations step.call.source).isSome = true := by
  intro step hstep
  have hcommand := t.command_le hlen step hstep
  have hbuffer := hbuffers.pageSize_le
  have hinput := fw.inputBufferSize_lt
  have hdest := hbuffers.destinations_le
  exact writeCommand_isSome_iff.mpr ⟨hids, by omega, by omega⟩

/-- No command of the session reboots a board. -/
theorem FlashImage.staysUp (hread : ReadLaw fw.cmp) :
    ∀ step ∈ t.plan, StaysUp fw step.call.command := by
  have herase : ∀ i, (commandEraseFlashPage fw i).AllCalls Call.NoReboot :=
    commandEraseFlashPage_noReboot
  have hwrite : ∀ i, (commandWriteFlash fw i).AllCalls Call.NoReboot := commandWriteFlash_noReboot
  have hupdate : ∀ i, (commandConfigUpdate fw i).AllCalls Call.NoReboot := fun _ => trivial
  have hsave : ∀ i, (commandConfigWriteToFlash fw i).AllCalls Call.NoReboot := fun _ =>
    .bind (saveConfigPages_noReboot _) fun _ => trivial
  simp only [FlashImage.plan, configUpdateAndSave, List.forall_mem_append, List.forall_mem_cons,
    List.forall_mem_map]
  refine ⟨fun request _ => ?_, ?_, ?_, by simp⟩
  · rw [FlashImage.step_command]
    cases request with
    | erase address =>
        exact .of_calls (fun x hx => (calls_erase hread hx).imp fun _ h => h.1) herase
    | write data address =>
        exact .of_calls (fun x hx => (calls_write hread hx).imp fun _ h => h.1) hwrite
  · exact .of_calls (fun x hx => (calls_update hread hx).imp fun _ h => h.1) hupdate
  · exact .of_calls (fun x hx => (calls_save hread hx).imp fun _ h => h.1) hsave

end Commands

/-! ## Sessions -/

section Sessions

variable {ι σ : Type} {fw : Firmware} {p : Platform σ} {Programs : UInt32 → List UInt8 → Prop}
  {Ready : σ → Prop} {unpackb : Unpackb} {t : FlashImage}

/-- After a reset the board has this configuration and the ID that it had before, and starts its
    application. -/
def StartsImage (fw : Firmware) (p : Platform σ) (n₀ n : Board σ) : Prop := ∀ l : Locals,
  let config := bootConfig fw (p.mem n.world) l
  SameStored config n.config ∧ config.ID = n₀.config.ID ∧
    jumpArgument fw (p.mem n.world) config = bootArgStartApplication

/-- A destination that follows the plan, with no complaint among the answers. -/
theorem Follows.startsImage (h : WorkingBoards fw p Programs) (hmap : WriteMapLaw fw.cmp)
    (hcrc : CrcIsZlib fw.crc32) (hsize : 512 ≤ fw.configPageSize) (hfits : t.Fits fw Programs)
    (hbase : t.baseAddress = fw.app.toNat) {trace : SessionTrace}
    (hquiet : ∀ step ∈ t.plan, step.Undisturbed (firmwareBoards fw p) trace) {n n' : Board σ}
    (hid : n.config.ID.toNat ∈ t.destinations)
    (hfollows : Follows (firmwareBoards fw p) unpackb trace t.plan n n')
    (hstorable : Storable n.config)
    (hcommit : ConfigKey.ofString? n.config.bootloaderCommit = none) : StartsImage fw p n n' := by
  obtain ⟨hflashed, hsaved⟩ := hfollows.flashed h hfits hquiet hid
  exact fun l => hflashed.boots h.read h.readStr h.write hmap hcrc hsize hsaved hbase hfits.end_le
    hstorable hcommit l

/-- Every board follows the plan of a session on the wire that ends without errors. -/
theorem wire_follows (h : WorkingBoards fw p Programs) (hcrc : CrcIsZlib fw.crc32)
    (hjump : fw.commandJumpDisableCrcChecking = false) (hfits : t.Fits fw Programs)
    (hbuffers : t.FitsBuffers fw) {states states' : ι → LoopState fw σ}
    (hids : ∀ i, (states i).config.ID.toNat ≤ 127)
    (hinj : Function.Injective fun i => (states i).config.ID) {scripts : List CallScript}
    {trace : SessionTrace}
    (hrun : runPlan unpackb t.plan false scripts = (trace, some (.completed false)))
    (hbus : SessionRun (wire fw p) states trace states') (i : ι) :
    Follows (firmwareBoards fw p) unpackb trace t.plan (states i).board (states' i).board := by
  have hplan : ∀ step ∈ t.plan, step.call.destinations ≠ [] ∧
      (wire fw p : Medium ι (LoopState fw σ)).Simulates (firmwareBoards fw p).lossy LoopState.board
        (fun s => ∀ i, (s i).config.ID.toNat ≤ 127) step.call := by
    intro step hstep
    have hsend := t.sendable h hfits hbuffers step hstep
    exact ⟨hsend.destinations_ne, wire_simulates hcrc h.write h.room hjump hsend⟩
  exact flash_image_follows h hfits (fun i => Nat.lt_succ_of_le (hids i)) hinj hrun
    (hbus.simulates_plan hrun hplan hids) i

/-- A session on a wire that loses nothing hears no complaint, and does not end with an error: the
    destinations are there, of the device class of the image, and their flash writers are ready. -/
theorem losslessWire_progresses (h : ErasingBoards fw p Programs t.pageSize Ready)
    (hcrc : CrcIsZlib fw.crc32) (hjump : fw.commandJumpDisableCrcChecking = false)
    (hfits : t.Fits fw Programs) (hbuffers : t.FitsBuffers fw) (hpages : t.FitsPages fw)
    {states states' : ι → LoopState fw σ} (hids : ∀ i, (states i).config.ID.toNat ≤ 127)
    (hinj : Function.Injective fun i => (states i).config.ID)
    (hpresent : ∀ d ∈ t.destinations, ∃ i, (states i).config.ID.toNat = d)
    (hboards : ∀ i, (states i).config.ID.toNat ∈ t.destinations → Ready (states i).world ∧
      beforeNul t.deviceClass = cString (states i).config.deviceClass)
    {scripts : List CallScript} {trace : SessionTrace} {last : Option PlanEnd}
    (hrun : runPlan unpackb t.plan false scripts = (trace, last))
    (hbus : SessionRun (losslessWire fw p) states trace states') :
    NoComplaints (firmwareBoards fw p) trace ∧ (last = none ∨ last = some (.completed false)) := by
  have hsendable := t.sendable h.toWorkingBoards hfits hbuffers
  have hplan : ∀ step ∈ t.plan, step.call.destinations ≠ [] ∧
      (losslessWire fw p : Medium ι (LoopState fw σ)).Simulates (firmwareBoards fw p).lossless
        LoopState.board (fun s => (∀ i, (s i).config.ID.toNat ≤ 127) ∧
          Function.Injective fun i => (s i).config.ID.toNat) step.call := by
    intro step hstep
    have hsend := hsendable step hstep
    exact ⟨hsend.destinations_ne, losslessWire_simulates hcrc h.write h.room hjump hsend⟩
  have hdest : ∀ d ∈ t.destinations, d < 256 := by
    intro d hd
    obtain ⟨i, rfl⟩ := hpresent d hd
    exact UInt8.toNat_lt _
  refine plan_progresses (fun step hstep => ?_) hpresent (fun i hi => ?_) hrun
    (hbus.simulates_plan hrun hplan ⟨hids, fun i j hij => hinj (UInt8.toNat_inj.mp hij)⟩)
  · exact ⟨t.plan_destinations step hstep,
      t.sends hfits.deviceClass_le hbuffers hdest step hstep, (hsendable step hstep).keepsId⟩
  · obtain ⟨hready, hclass⟩ := hboards i hi
    exact flash_progresses h hfits hpages hready hclass

/-- It is a session on the wire. -/
theorem losslessWire_session (h : WorkingBoards fw p Programs) (hfits : t.Fits fw Programs)
    (hbuffers : t.FitsBuffers fw) {states states' : ι → LoopState fw σ}
    {scripts : List CallScript} {trace : SessionTrace} {last : Option PlanEnd}
    (hrun : runPlan unpackb t.plan false scripts = (trace, last))
    (hbus : SessionRun (losslessWire fw p) states trace states') :
    SessionRun (wire fw p) states trace states' := by
  have hsendable := t.sendable h hfits hbuffers
  exact hbus.simulates_plan hrun (fun step hstep =>
    ⟨(hsendable step hstep).destinations_ne, losslessWire_wire step.call⟩) trivial

theorem NoComplaints.undisturbed {trace : SessionTrace} {plan : List PlanStep}
    (h : NoComplaints (firmwareBoards fw p) trace) :
    ∀ step ∈ plan, step.Undisturbed (firmwareBoards fw p) trace :=
  fun step _ _ events hmem => h step.call events hmem

/-- A board alone on the wire can be led to the end of the session. -/
theorem exists_flash_session (h : ErasingBoards fw p Programs t.pageSize Ready)
    (hcrc : CrcIsZlib fw.crc32) (unpackb : Unpackb) (hfits : t.Fits fw Programs)
    (hbuffers : t.FitsBuffers fw) (hpages : t.FitsPages fw)
    (htimeouts : 0 < fw.bootloaderTimeoutMs ∧ 0 < fw.datagramTimeoutMs) {s : LoopState fw σ}
    (hid : s.config.ID.toNat ≤ 127) (hdest : t.destinations = [s.config.ID.toNat])
    (hready : Ready s.world) (hclass : beforeNul t.deviceClass = cString s.config.deviceClass) :
    ∃ scripts trace s', runPlan unpackb t.plan false scripts = (trace, some (.completed false)) ∧
      SessionRun (losslessWire fw p) (fun _ : Unit => s) trace s' := by
  have hsmall : ∀ d ∈ t.destinations, d < 256 := by
    rw [hdest]
    exact fun d hd => List.mem_singleton.mp hd ▸ UInt8.toNat_lt _
  have hsends := t.sends hfits.deviceClass_le hbuffers hsmall
  rw [hdest] at hsends
  refine exists_session hcrc h.write h.room htimeouts hid t.plan s rfl (fun step hstep => ?_)
    (flash_progresses h hfits hpages hready hclass)
  exact ⟨t.sendable h.toWorkingBoards hfits hbuffers step hstep,
    (t.plan_destinations step hstep).trans hdest, hsends step hstep, t.staysUp h.read step hstep⟩

end Sessions

/-! ## A session with one board -/

/-- The Nucleo board just started, with its flash memory erased. -/
def nucleoState : LoopState nucleoFirmware FlashWorld := { blankState with world := erasedFlash }

theorem nucleo_erases : ErasingBoards nucleoFirmware nucleoPlatform
    (Mcu.stm32f4 nucleoBoardStm32f446reFlash).Programs twoBytes.pageSize
    (Mcu.stm32f4 nucleoBoardStm32f446reFlash).Ready where
  toWorkingBoards := nucleo_works
  eraser := Mcu.eraserLaws rfl nucleo_layout (by decide) ⟨by decide, by decide⟩
  retries := by decide

theorem nucleoState_ready :
    (Mcu.stm32f4 nucleoBoardStm32f446reFlash).Ready nucleoState.world :=
  fun _ _ hset => absurd hset (by simp [nucleoState, erasedFlash])

theorem twoBytes_fitsBuffers : twoBytes.FitsBuffers nucleoFirmware :=
  ⟨by decide, by decide, by decide⟩

theorem twoBytes_fitsPages : twoBytes.FitsPages nucleoFirmware :=
  ⟨rfl, by decide, by decide, by decide⟩

/-- The two bytes, sent to it over a wire that loses nothing. -/
theorem twoBytes_lossless : ∃ scripts trace s',
    runPlan Unpackb.numbers twoBytes.plan false scripts = (trace, some (.completed false)) ∧
    SessionRun (losslessWire nucleoFirmware nucleoPlatform) (fun _ : Unit => nucleoState) trace s' ∧
    NoComplaints (firmwareBoards nucleoFirmware nucleoPlatform) trace := by
  have hpresent : ∀ d ∈ twoBytes.destinations, ∃ _ : Unit, nucleoState.config.ID.toNat = d :=
    fun d hd => ⟨(), (List.mem_singleton.mp hd).symm⟩
  obtain ⟨scripts, trace, s', hrun, hbus⟩ := exists_flash_session nucleo_erases (fun _ _ => rfl)
    Unpackb.numbers twoBytes_fits twoBytes_fitsBuffers twoBytes_fitsPages ⟨by decide, by decide⟩
    (s := nucleoState) (by decide) rfl nucleoState_ready (by decide)
  obtain ⟨hquiet, -⟩ := losslessWire_progresses nucleo_erases (fun _ _ => rfl) rfl twoBytes_fits
    twoBytes_fitsBuffers twoBytes_fitsPages (fun _ => by decide) (fun _ _ _ => rfl) hpresent
    (fun _ _ => ⟨nucleoState_ready, by decide⟩) hrun hbus
  exact ⟨scripts, trace, s', hrun, hbus, hquiet⟩

/-! ## Results -/

/-- A session without errors has stored the image on all its destinations, with their bootloaders as
    before, and has not changed any other board, whatever frames were lost on the way. Without an
    error code among the answers to the update and to the save, the destinations start the image. -/
theorem flash_over_wire {ι σ : Type} (fw : Firmware) (p : Platform σ)
    (Programs : UInt32 → List UInt8 → Prop) (h : WorkingBoards fw p Programs)
    (hmap : WriteMapLaw fw.cmp) (hcrc : CrcIsZlib fw.crc32) (hsize : 512 ≤ fw.configPageSize)
    (hjump : fw.commandJumpDisableCrcChecking = false) (unpackb : Unpackb) (t : FlashImage)
    (hfits : t.Fits fw Programs) (hbuffers : t.FitsBuffers fw)
    (hbase : t.baseAddress = fw.app.toNat) (states states' : ι → LoopState fw σ)
    (hids : ∀ i, (states i).config.ID.toNat ≤ 127)
    (hinj : Function.Injective fun i => (states i).config.ID) (scripts : List CallScript)
    (trace : SessionTrace)
    (hrun : runPlan unpackb t.plan false scripts = (trace, some (.completed false)))
    (hbus : SessionRun (wire fw p) states trace states') (i : ι) :
    ((states i).config.ID.toNat ∈ t.destinations →
      Stored fw p (states i).board t (states' i).board ∧
        ((∀ step ∈ t.plan, step.Undisturbed (firmwareBoards fw p) trace) →
          Storable (states i).config →
          ConfigKey.ofString? (states i).config.bootloaderCommit = none →
            StartsImage fw p (states i).board (states' i).board)) ∧
      ((states i).config.ID.toNat ∉ t.destinations → (states' i).board = (states i).board) := by
  have hfollows := wire_follows h hcrc hjump hfits hbuffers hids hinj hrun hbus i
  refine ⟨fun hid => ⟨hfollows.stored h hfits hid, fun hquiet => ?_⟩,
    fun hid => hfollows.other hid⟩
  exact hfollows.startsImage h hmap hcrc hsize hfits hbase hquiet hid

/-- Board 1 takes the two bytes, frame by frame, and starts them. -/
theorem flash_over_wire_two : ∃ scripts trace s',
    runPlan Unpackb.numbers twoBytes.plan false scripts = (trace, some (.completed false)) ∧
    SessionRun (wire nucleoFirmware nucleoPlatform) (fun _ : Unit => nucleoState) trace s' ∧
    Stored nucleoFirmware nucleoPlatform nucleoState.board twoBytes (s' ()).board ∧
    StartsImage nucleoFirmware nucleoPlatform nucleoState.board (s' ()).board := by
  obtain ⟨scripts, trace, s', hrun, hbus, hquiet⟩ := twoBytes_lossless
  have hwire := losslessWire_session nucleo_works twoBytes_fits twoBytes_fitsBuffers hrun hbus
  obtain ⟨hstores, hstarts⟩ := (flash_over_wire nucleoFirmware nucleoPlatform _ nucleo_works
    Cmp.reference_writeMap (fun _ _ => rfl) (by decide) rfl Unpackb.numbers twoBytes twoBytes_fits
    twoBytes_fitsBuffers rfl (fun _ : Unit => nucleoState) s' (fun _ => by decide)
    (fun _ _ _ => rfl) scripts trace hrun hwire ()).1 (by decide)
  exact ⟨scripts, trace, s', hrun, hwire, hstores,
    hstarts hquiet.undisturbed ⟨by decide, by decide, by decide, by decide⟩ (by decide)⟩

/-- A session on a wire that loses nothing goes on, or has ended without errors: then the image is
    stored on all its destinations, which start it, and no other board has changed. -/
theorem flash_lossless {ι σ : Type} (fw : Firmware) (p : Platform σ)
    (Programs : UInt32 → List UInt8 → Prop) (Ready : σ → Prop) (t : FlashImage)
    (h : ErasingBoards fw p Programs t.pageSize Ready)
    (hmap : WriteMapLaw fw.cmp) (hcrc : CrcIsZlib fw.crc32) (hsize : 512 ≤ fw.configPageSize)
    (hjump : fw.commandJumpDisableCrcChecking = false) (unpackb : Unpackb)
    (hfits : t.Fits fw Programs) (hbuffers : t.FitsBuffers fw) (hpages : t.FitsPages fw)
    (states states' : ι → LoopState fw σ) (hids : ∀ i, (states i).config.ID.toNat ≤ 127)
    (hinj : Function.Injective fun i => (states i).config.ID)
    (hpresent : ∀ d ∈ t.destinations, ∃ i, (states i).config.ID.toNat = d)
    (hboards : ∀ i, (states i).config.ID.toNat ∈ t.destinations → Ready (states i).world ∧
      beforeNul t.deviceClass = cString (states i).config.deviceClass)
    (scripts : List CallScript) (trace : SessionTrace) (last : Option PlanEnd)
    (hrun : runPlan unpackb t.plan false scripts = (trace, last))
    (hbus : SessionRun (losslessWire fw p) states trace states') :
    last = none ∨ (last = some (.completed false) ∧ ∀ i,
      ((states i).config.ID.toNat ∈ t.destinations →
        Stored fw p (states i).board t (states' i).board ∧
          (Storable (states i).config →
            ConfigKey.ofString? (states i).config.bootloaderCommit = none →
              StartsImage fw p (states i).board (states' i).board)) ∧
        ((states i).config.ID.toNat ∉ t.destinations →
          (states' i).board = (states i).board)) := by
  obtain ⟨hquiet, hwaits | rfl⟩ := losslessWire_progresses h hcrc hjump hfits hbuffers hpages hids
    hinj hpresent hboards hrun hbus
  · exact .inl hwaits
  have hfollows := wire_follows h.toWorkingBoards hcrc hjump hfits hbuffers hids hinj hrun
    (losslessWire_session h.toWorkingBoards hfits hbuffers hrun hbus)
  refine .inr ⟨rfl, fun i => ⟨fun hid => ⟨(hfollows i).stored h.toWorkingBoards hfits hid, ?_⟩,
    fun hid => (hfollows i).other hid⟩⟩
  exact (hfollows i).startsImage h.toWorkingBoards hmap hcrc hsize hfits hpages.base_eq
    hquiet.undisturbed hid

/-- The session with board 1 has ended, and board 1 starts the two bytes. -/
theorem flash_lossless_two : ∃ scripts trace s',
    runPlan Unpackb.numbers twoBytes.plan false scripts = (trace, some (.completed false)) ∧
    SessionRun (losslessWire nucleoFirmware nucleoPlatform) (fun _ : Unit => nucleoState) trace s' ∧
    StartsImage nucleoFirmware nucleoPlatform nucleoState.board (s' ()).board := by
  obtain ⟨scripts, trace, s', hrun, hbus, -⟩ := twoBytes_lossless
  have hends := flash_lossless nucleoFirmware nucleoPlatform _ _ twoBytes nucleo_erases
    Cmp.reference_writeMap (fun _ _ => rfl) (by decide) rfl Unpackb.numbers twoBytes_fits
    twoBytes_fitsBuffers twoBytes_fitsPages (fun _ : Unit => nucleoState) s' (fun _ => by decide)
    (fun _ _ _ => rfl) (fun d hd => ⟨(), (List.mem_singleton.mp hd).symm⟩)
    (fun _ _ => ⟨nucleoState_ready, by decide⟩) scripts trace _ hrun hbus
  obtain ⟨-, hboards⟩ := hends.resolve_left (by simp)
  obtain ⟨-, hstarts⟩ := (hboards ()).1 (by decide)
  exact ⟨scripts, trace, s', hrun, hbus,
    hstarts ⟨by decide, by decide, by decide, by decide⟩ (by decide)⟩

/-- For every image and every board alone on the wire, whatever the state of its main loop is, there
    is a session that ends without errors, and behind it the board starts the image. -/
theorem flash_completes {σ : Type} (fw : Firmware) (p : Platform σ)
    (Programs : UInt32 → List UInt8 → Prop) (Ready : σ → Prop) (t : FlashImage)
    (h : ErasingBoards fw p Programs t.pageSize Ready)
    (hmap : WriteMapLaw fw.cmp) (hcrc : CrcIsZlib fw.crc32) (hsize : 512 ≤ fw.configPageSize)
    (hjump : fw.commandJumpDisableCrcChecking = false)
    (htimeouts : 0 < fw.bootloaderTimeoutMs ∧ 0 < fw.datagramTimeoutMs) (unpackb : Unpackb)
    (hfits : t.Fits fw Programs) (hbuffers : t.FitsBuffers fw) (hpages : t.FitsPages fw)
    (s : LoopState fw σ) (hid : s.config.ID.toNat ≤ 127)
    (hdest : t.destinations = [s.config.ID.toNat]) (hready : Ready s.world)
    (hclass : beforeNul t.deviceClass = cString s.config.deviceClass)
    (hstorable : Storable s.config)
    (hcommit : ConfigKey.ofString? s.config.bootloaderCommit = none) :
    ∃ scripts trace s', runPlan unpackb t.plan false scripts = (trace, some (.completed false)) ∧
      SessionRun (losslessWire fw p) (fun _ : Unit => s) trace s' ∧
      Stored fw p s.board t (s' ()).board ∧ StartsImage fw p s.board (s' ()).board := by
  have hworks := h.toWorkingBoards
  have hmem : s.config.ID.toNat ∈ t.destinations := hdest ▸ List.mem_singleton_self _
  have hinj : Function.Injective fun _ : Unit => s.config.ID := fun _ _ _ => rfl
  obtain ⟨scripts, trace, s', hrun, hbus⟩ := exists_flash_session h hcrc unpackb hfits hbuffers
    hpages htimeouts hid hdest hready hclass
  obtain ⟨hquiet, -⟩ := losslessWire_progresses h hcrc hjump hfits hbuffers hpages (fun _ => hid)
    hinj (fun d hd => ⟨(), (List.mem_singleton.mp (hdest ▸ hd)).symm⟩)
    (fun _ _ => ⟨hready, hclass⟩) hrun hbus
  have hfollows := wire_follows hworks hcrc hjump hfits hbuffers (fun _ => hid) hinj hrun
    (losslessWire_session hworks hfits hbuffers hrun hbus) ()
  exact ⟨scripts, trace, s', hrun, hbus, hfollows.stored hworks hfits hmem,
    hfollows.startsImage hworks hmap hcrc hsize hfits hpages.base_eq hquiet.undisturbed hmem
      hstorable hcommit⟩

/-- Board 1 is led to the end of the session with the two bytes. -/
theorem flash_completes_two : ∃ scripts trace s',
    runPlan Unpackb.numbers twoBytes.plan false scripts = (trace, some (.completed false)) ∧
    SessionRun (losslessWire nucleoFirmware nucleoPlatform) (fun _ : Unit => nucleoState) trace s' ∧
    Stored nucleoFirmware nucleoPlatform nucleoState.board twoBytes (s' ()).board ∧
    StartsImage nucleoFirmware nucleoPlatform nucleoState.board (s' ()).board :=
  flash_completes nucleoFirmware nucleoPlatform _ _ twoBytes nucleo_erases
    Cmp.reference_writeMap (fun _ _ => rfl) (by decide) rfl ⟨by decide, by decide⟩ Unpackb.numbers
    twoBytes_fits twoBytes_fitsBuffers twoBytes_fitsPages nucleoState (by decide) rfl
    nucleoState_ready (by decide) ⟨by decide, by decide, by decide, by decide⟩ (by decide)

end CanBootloader
