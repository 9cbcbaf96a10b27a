/-
  A board alone on the wire.

  When its clocks stand still and no transmission fails, a board takes part in an exchange in which
  nothing is lost (`exists_exchange`). A board that accepts the answers of a plan by itself
  (`Progresses`) then leads it to its end, one exchange for each call (`exists_session`).
-/
import CanBootloader.Client.Wire

namespace CanBootloader

open Lib

variable {fw : Firmware} {σ : Type} {p : Platform σ}

/-! ## Rounds without delay -/

/-- A round with this frame at the time at which the timers were started. -/
def timelyRound (s : LoopState fw σ) (frame : RxFrame) : Round where
  bootloaderClock := s.bootloaderTimeoutStartMs.toNat
  datagramClock := s.datagramTimeoutStartMs.toNat
  resetClock := s.datagramTimeoutStartMs.toNat
  frame := some frame
  timeoutSend := fun _ => true
  replySend := fun _ => true
  locals := blankLocals

/-- The timers were started at the same time. -/
def SameTimers (s t : LoopState fw σ) : Prop :=
  t.bootloaderTimeoutStartMs = s.bootloaderTimeoutStartMs ∧
    t.datagramTimeoutStartMs = s.datagramTimeoutStartMs

/-- No time has passed. -/
theorem timeoutReached_self {start timeout : UInt32} (h : 0 < timeout) :
    timeoutReached (timeMs start.toNat) start timeout = false := by
  rw [timeMs, UInt32.ofNat_toNat, timeoutReached, UInt32.sub_self]
  exact decide_eq_false (UInt32.not_le.mpr h)

/-- A part of a round in which nothing is late, no transmission fails, and the timers that run are
    as they were. -/
structure Smooth (s : LoopState fw σ) (o : List (Event σ) × Option (LoopState fw σ)) : Prop where
  quiet : ∀ e ∈ o.1, ¬ e.isTimeout
  ok : ∀ t ∈ transmitted o.1, t.ok = true
  timers : ∀ t, o.2 = some t → SameTimers s t

theorem Smooth.silent {s t : LoopState fw σ} (h : SameTimers s t) : Smooth s ([], some t) where
  quiet := by simp
  ok := by simp
  timers u hu := Option.some.inj hu ▸ h

theorem returnLoop_ok (sourceId : UInt8) (count : Nat) : ∀ (k : Nat) (start : Bool)
    (dt : CanDatagram), ∀ t ∈ returnLoop sourceId (fun _ => true) count k start dt, t.ok = true := by
  induction count with
  | zero => exact fun _ _ _ _ h => absurd h List.not_mem_nil
  | succ count ih =>
      intro k start dt t ht
      rw [returnLoop] at ht
      by_cases hend : (canDatagramOutputBytes dt 8).1 = []
      · simp [hend] at ht
      · simp only [hend, if_false, if_true] at ht
        rcases List.mem_cons.mp ht with rfl | ht
        · rfl
        · exact ih _ _ _ t ht

theorem sent_quiet (txs : List Transmission) :
    ∀ e ∈ (txs.map Event.sent : List (Event σ)), ¬ e.isTimeout := by
  simp [Event.isTimeout]

/-- What the main loop sends. -/
theorem sendReply_smooth (s : LoopState fw σ) (id : UInt32) (e : Execution) :
    ∃ txs : List Transmission,
      (sendReply s id e fun _ => true).1 = txs.map Event.sent ∧ (∀ t ∈ txs, t.ok = true) ∧
      SameTimers s (sendReply s id e fun _ => true).2 := by
  unfold sendReply
  simp only
  split_ifs
  · exact ⟨_, rfl, returnLoop_ok _ _ _ _ _, rfl, rfl⟩
  · exact ⟨_, rfl, returnLoop_ok _ _ _ _ _, rfl, rfl⟩

theorem handleDatagram_smooth (s : LoopState fw σ) (id : UInt32) {r : Round}
    (hr : r.replySend = fun _ => true) : Smooth s (handleDatagram p s id r) := by
  cases hvalid : canDatagramIsValid fw.crc32 s.inbox.dt with
  | false =>
      rw [handleDatagram_corrupt p hvalid, hr]
      refine ⟨sent_quiet _, ?_, ?_⟩
      · rw [transmitted_sent]
        exact returnLoop_ok _ _ _ _ _
      · rintro t ⟨rfl⟩
        exact ⟨rfl, rfl⟩
  | true =>
      cases haddr : s.inbox.addressed s.config.ID with
      | false =>
          rw [handleDatagram_other p hvalid haddr]
          exact .silent ⟨rfl, rfl⟩
      | true =>
          have hcalls : ∀ e ∈ (.execute s.inbox.payload :: callEvents (execution p s r).calls :
              List (Event σ)), ¬ e.isTimeout := by
            refine List.forall_mem_cons.mpr ⟨by simp [Event.isTimeout], ?_⟩
            rw [callEvents, List.forall_mem_map]
            rintro ⟨w, c⟩ -
            simp [Event.isTimeout]
          rw [handleDatagram_addressed p hvalid haddr, hr]
          cases (execution p s r).value with
          | none => exact ⟨hcalls, by simp, by simp⟩
          | some e =>
              simp only
              obtain ⟨txs, htxs, hok, htimers⟩ := sendReply_smooth { s with
                datagramTimeoutRunning := false
                status := success
                bootloaderTimeoutEnabled := false
                world := (execution p s r).world } id e
              rw [htxs]
              refine ⟨?_, ?_, ?_⟩
              · exact List.forall_mem_append.mpr ⟨hcalls, sent_quiet txs⟩
              · simpa using hok
              · rintro t ⟨rfl⟩
                exact htimers

theorem appendFrame_timers (s : LoopState fw σ) (f : RxFrame) :
    SameTimers s (appendFrame s f s.datagramTimeoutStartMs.toNat) := by
  unfold appendFrame
  simp only
  split_ifs
  · exact ⟨rfl, UInt32.ofNat_toNat⟩
  · exact ⟨rfl, UInt32.ofNat_toNat⟩

theorem SameTimers.trans {s t u : LoopState fw σ} (h : SameTimers s t) (h' : SameTimers t u) :
    SameTimers s u :=
  ⟨h'.1.trans h.1, h'.2.trans h.2⟩

/-- A round with a frame. -/
theorem roundStep_smooth (htimeouts : 0 < fw.bootloaderTimeoutMs ∧ 0 < fw.datagramTimeoutMs)
    {s t : LoopState fw σ} (h : SameTimers s t) (f : RxFrame) :
    Smooth s (roundStep p t (timelyRound s f)) := by
  have hbootloader : (t.bootloaderTimeoutEnabled && timeoutReached
      (timeMs (timelyRound s f).bootloaderClock) t.bootloaderTimeoutStartMs
        fw.bootloaderTimeoutMs) = false := by
    rw [h.1, timelyRound, timeoutReached_self htimeouts.1, Bool.and_false]
  have hdatagram : checkDatagramTimeout t (timelyRound s f) = ([], t) := by
    rw [checkDatagramTimeout, h.2, timelyRound, timeoutReached_self htimeouts.2, Bool.and_false]
    rfl
  have hreceive : Smooth s (receive p t (timelyRound s f)) := by
    have happend : SameTimers s (appendFrame t f s.datagramTimeoutStartMs.toNat) := by
      have hframe := appendFrame_timers t f
      rw [h.2] at hframe
      exact h.trans hframe
    by_cases hus : frameIsForUs t.config f.id = true
    · by_cases hend : canDatagramIsComplete
          (appendFrame t f s.datagramTimeoutStartMs.toNat).inbox.dt = true ∨ f.data.length < 8
      · obtain ⟨hquiet, hok, htimers⟩ := handleDatagram_smooth (p := p)
          (appendFrame t f s.datagramTimeoutStartMs.toNat) f.id (r := timelyRound s f) rfl
        rw [receive_end p (r := timelyRound s f) rfl hus hend]
        exact ⟨hquiet, hok, fun u hu => happend.trans (htimers u hu)⟩
      · obtain ⟨hopen, hlen⟩ := not_or.mp hend
        have hle := f.data_le
        rw [receive_more p (r := timelyRound s f) rfl hus (Bool.eq_false_iff.mpr hopen) (by omega)]
        exact .silent happend
    · rw [receive_ignored p (r := timelyRound s f) fun f' hf' => by
        cases hf'
        simpa using hus]
      exact .silent h
  rw [roundStep, hbootloader, if_neg (by simp), hdatagram]
  exact hreceive

/-- Round after round. -/
theorem runRounds_smooth (htimeouts : 0 < fw.bootloaderTimeoutMs ∧ 0 < fw.datagramTimeoutMs)
    {s : LoopState fw σ} (fs : List RxFrame) : ∀ {t : LoopState fw σ}, SameTimers s t →
      Smooth s (runRounds p t (fs.map (timelyRound s))) := by
  induction fs with
  | nil => exact fun h => .silent h
  | cons f fs ih =>
      intro t h
      have hround := roundStep_smooth (p := p) htimeouts h f
      rw [List.map_cons]
      rcases hstep : roundStep p t (timelyRound s f) with ⟨events, _ | u⟩
      · rwa [runRounds_cons_none p hstep, ← hstep]
      · rw [hstep] at hround
        obtain ⟨hquiet, hok, htimers⟩ := ih (hround.timers u rfl)
        rw [runRounds_cons_some p hstep]
        refine ⟨List.forall_mem_append.mpr ⟨hround.quiet, hquiet⟩, ?_, htimers⟩
        rw [transmitted_append]
        exact List.forall_mem_append.mpr ⟨hround.ok, hok⟩

/-! ## Arrival -/

/-- The frames of a datagram of the client, as a board receives them. -/
theorem exists_rxFrames {startBit : Nat} (hstart : startBit < 2 ^ 32) (bytes : List UInt8) :
    ∃ fs : List RxFrame,
      fs.map RxFrame.onBus = (datagramToFramesFrom startBit bytes 0).map Frame.onBus := by
  have hframe : ∀ {startBit : Nat}, startBit < 2 ^ 32 → ∀ data : List UInt8, data.length ≤ 8 →
      ∃ f : RxFrame, f.onBus = (startBit + 0, data) :=
    fun hstart data hlen =>
      ⟨⟨UInt32.ofNat _, data, hlen⟩, congrArg (·, data) (UInt32.toNat_ofNat_of_lt' hstart)⟩
  induction startBit, bytes using datagramToFramesFrom.induct with
  | case1 startBit bytes hmore ih =>
      obtain ⟨f, hf⟩ := hframe hstart (bytes.take 8) (List.length_take_le 8 bytes)
      obtain ⟨fs, hfs⟩ := ih (by decide)
      refine ⟨f :: fs, ?_⟩
      rw [datagramToFramesFrom_more _ _ hmore]
      exact congrArg₂ List.cons hf hfs
  | case2 startBit bytes hlast =>
      obtain ⟨f, hf⟩ := hframe hstart bytes (not_lt.mp hlast)
      refine ⟨[f], ?_⟩
      rw [datagramToFramesFrom_last _ _ (not_lt.mp hlast)]
      exact congrArg₂ List.cons hf rfl

theorem arrives_timely (s : LoopState fw σ) (id : UInt8) {fs : List RxFrame} (hne : fs ≠ []) :
    Arrives id (fs.map RxFrame.onBus) (fs.map (timelyRound s)) := by
  induction fs with
  | nil => exact absurd rfl hne
  | cons f fs ih =>
      cases fs with
      | nil => exact .last rfl rfl
      | cons g fs => exact .frame rfl rfl (ih (List.cons_ne_nil g fs))

variable (fw) in
/-- The board does not reboot when it executes the command. -/
def StaysUp (command : List UInt8) : Prop :=
  ∀ x : DatagramCall, x.Carries command → (x.code fw).AllCalls Call.NoReboot

theorem StaysUp.of_calls {callback : Callback} {command : List UInt8}
    (hcalls : ∀ x : DatagramCall, x.Carries command → ∃ i, x.Calls fw callback i)
    (h : ∀ i, (callback i).AllCalls Call.NoReboot) : StaysUp fw command := by
  intro x hx
  obtain ⟨i, hcall⟩ := hcalls x hx
  rw [hcall.code_eq]
  exact .bind (h i) fun _ => trivial

/-- Then it goes on behind a datagram. -/
theorem handleDatagram_goesOn {command : List UInt8} (hup : StaysUp fw command)
    {s : LoopState fw σ} (hpayload : s.inbox.payload = command) (id : UInt32) (r : Round) :
    (handleDatagram p s id r).2 ≠ none := by
  cases hvalid : canDatagramIsValid fw.crc32 s.inbox.dt with
  | false => simp [handleDatagram_corrupt p hvalid]
  | true =>
      cases haddr : s.inbox.addressed s.config.ID with
      | false => simp [handleDatagram_other p hvalid haddr]
      | true =>
          have hreturns := value_of_noReboot (p := p) (hup ⟨s.inbox.dt.data,
            s.inbox.dt.dataLen.toNat, s.outputBuf, fw.outputBufferSize, s.config, success,
            r.locals⟩ hpayload) s.world
          rw [handleDatagram_addressed p hvalid haddr]
          cases hvalue : (execution p s r).value with
          | none => exact absurd hvalue hreturns
          | some e => simp

/-- The frames of a command can arrive without delay and loss. -/
theorem exists_arrival (htimeouts : 0 < fw.bootloaderTimeoutMs ∧ 0 < fw.datagramTimeoutMs)
    {command : List UInt8} {boards : List Nat} {frames : List Frame}
    (hsend : writeCommand command boards 0 = some frames)
    (hcommand : command ≠ [] ∧ command.length ≤ fw.inputBufferSize) (hboards : boards ≠ [])
    (hup : StaysUp fw command) (s : LoopState fw σ) :
    ∃ rounds s', Arrives s.config.ID (frames.map Frame.onBus) rounds ∧
      (runRounds p s rounds).2 = some s' ∧
      (∀ e ∈ (runRounds p s rounds).1, ¬ e.isTimeout) ∧
      ∀ t ∈ transmitted (runRounds p s rounds).1, t.ok = true := by
  obtain ⟨bytes, hbytes, hframes⟩ := Option.map_eq_some_iff.mp hsend
  unfold encodeFor at hbytes
  split_ifs at hbytes
  obtain ⟨d, hdata, hdest, rfl⟩ := encodeDatagram_some hbytes
  obtain ⟨fs, hfs⟩ := exists_rxFrames (show 0x80 < 2 ^ 32 by decide) d.wire
  have hne : fs ≠ [] := by
    rintro rfl
    exact datagramToFramesFrom_ne_nil _ _ _ (List.map_eq_nil_iff.mp hfs.symm)
  have hon : frames.map Frame.onBus = fs.map RxFrame.onBus := by
    rw [hfs, ← hframes]
    rfl
  have harrives := arrives_timely s s.config.ID hne
  have hsmooth := runRounds_smooth (p := p) htimeouts fs (show SameTimers s s from ⟨rfl, rfl⟩)
  obtain ⟨t, r, id, h⟩ := arrived_of_arrives p (d := d)
    (by rw [hdest]; simpa using hboards) (by rw [hdata]; exact hcommand.1)
    (by rw [hdata]; exact hcommand.2) harrives s true d.wire rfl hfs rfl hsmooth.quiet
  have hgoes := handleDatagram_goesOn (p := p) hup ((payload_of_holds h.holds).trans hdata) id r
  rw [← h.run] at hgoes
  obtain ⟨s', hs'⟩ := Option.ne_none_iff_exists'.mp hgoes
  exact ⟨_, s', hon ▸ harrives, hs', hsmooth.quiet, hsmooth.ok⟩

/-! ## Calls -/

section Calls

variable (hcrc : CrcIsZlib fw.crc32) (hwrite : WriteLaw fw.cmp) (hroom : 0 < fw.outputBufferSize)
  (htimeouts : 0 < fw.bootloaderTimeoutMs ∧ 0 < fw.datagramTimeoutMs)

include hcrc hwrite hroom htimeouts

/-- A board can execute a command that is sent to it alone, and be heard. -/
theorem exists_exchange {c : RetryCall} (hc : c.Sendable fw p) (hup : StaysUp fw c.command)
    {d : Nat} (hlt : d ≤ 127) {frames : List Frame}
    (hsend : writeCommand c.command [d] c.source = some frames) {s : LoopState fw σ}
    (hd : s.config.ID.toNat = d) (received : List (Nat × List UInt8)) :
    ∃ (b : Bus Unit (LoopState fw σ)) (a : BoardReply),
      (losslessWire fw p).Transmits c.command ⟨fun _ => s, received⟩ [d] frames b ∧
      boardExec fw p s.board c.command a (b.nodes ()).board ∧
      (b.nodes ()).config.ID.toNat = d ∧ (d, a.bytes) ∈ b.received := by
  rw [hc.source] at hsend
  have hcommand := And.intro hc.command_ne hc.command_le
  obtain ⟨rounds, s', harrives, hends, hquiet, hok⟩ := exists_arrival (p := p) htimeouts hsend
    hcommand (List.cons_ne_nil d []) hup s
  obtain ⟨reply, ds, htakes, -, -⟩ := request_takes hcrc hwrite hroom hsend hcommand
    (List.cons_ne_nil d []) harrives hquiet hends
  have hid : s'.config.ID.toNat = d := (htakes.hears.keepsId hc.keepsId).trans hd
  let source : Source := ⟨d, Nat.lt_succ_of_le hlt⟩
  let sent := (transmitted (runRounds p s rounds).1).map Transmission.onBus
  have hexchange : LosslessExchange p frames (fun _ : Unit => s) (fun _ => s') (fun _ => rounds)
      (fun x => if x = source then sent else []) := by
    refine ⟨fun _ => hends, fun _ => harrives, fun _ => hquiet, fun _ => hok, ?_, ?_⟩
    · intro _ x hx
      exact if_pos (Fin.ext (hx.symm.trans hid))
    · intro x hx
      exact if_neg fun heq => hx () (hid.trans (congrArg Fin.val heq).symm)
  have hline := Interleaves.single source sent
  obtain ⟨replies, hears, hexecutes, hheard, -⟩ := hexchange.delivery hcrc hwrite hroom hc hsend
    (List.cons_ne_nil d []) (fun _ => hid.trans_le hlt) (fun _ _ _ => rfl) hline (fun _ => none)
    received
  obtain ⟨a, ha⟩ := Option.ne_none_iff_exists'.mp
    (hexecutes () (List.mem_singleton.mpr hd))
  have hexec := hears ()
  rw [ha] at hexec
  have hanswer := hheard () a ha
  rw [show (firmwareBoards fw p).id s'.board = d from hid] at hanswer
  exact ⟨⟨fun _ => s', _⟩, a, ⟨_, _, _, _, hexchange, hline, rfl⟩, hexec.2, hid, hanswer⟩

/-- The steps of a plan that a board alone can be led through. -/
structure PlanStep.Solo (fw : Firmware) (p : Platform σ) (d : Nat) (step : PlanStep) : Prop where
  sendable : step.call.Sendable fw p
  destinations : step.call.destinations = [d]
  sends : (writeCommand step.call.command [d] step.call.source).isSome = true
  staysUp : StaysUp fw step.call.command

/-- A session with it, one answer read after each transmission. -/
theorem exists_session {unpackb : Unpackb} {d : Nat} (hlt : d ≤ 127) (plan : List PlanStep) :
    ∀ s : LoopState fw σ, s.config.ID.toNat = d → (∀ step ∈ plan, step.Solo fw p d) →
      Progresses (firmwareBoards fw p) unpackb plan s.board →
      ∃ scripts trace s', runPlan unpackb plan false scripts = (trace, some (.completed false)) ∧
        SessionRun (losslessWire fw p) (fun _ : Unit => s) trace s' := by
  induction plan with
  | nil => exact fun s _ _ _ => ⟨[], [], fun _ => s, rfl, .nil _⟩
  | cons step plan ih =>
      intro s hd hsteps hprogress
      obtain ⟨⟨hc, hdest, hsends, hup⟩, hsteps⟩ := List.forall_mem_cons.mp hsteps
      obtain ⟨frames, hframes⟩ := Option.isSome_iff_exists.mp hsends
      obtain ⟨b, a, htransmits, hexec, hid, hheard⟩ :=
        exists_exchange hcrc hwrite hroom htimeouts hc hup hlt hframes hd []
      obtain ⟨⟨haccept, -⟩, hprogress⟩ := hprogress a _ hexec
      obtain ⟨scripts, trace, s', hrun, hbus⟩ := ih (b.nodes ()) hid hsteps hprogress
      have hcall : writeCommandRetry step.call [] [⟨.datagram a.bytes [] d, []⟩] = _ :=
        writeCommandRetry_answered hdest hframes
      have hverdict : step.verdict unpackb (AList.insert d a.bytes ∅) = .success :=
        PlanStep.verdict_answered d haccept
      refine ⟨⟨[], [⟨.datagram a.bytes [] d, []⟩]⟩ :: scripts, _ :: trace, s', ?_,
        .cons (BusRun.answered htransmits hheard) hbus⟩
      simp only [runPlan, hcall, afterCall, hverdict, hrun]

end Calls

end CanBootloader
