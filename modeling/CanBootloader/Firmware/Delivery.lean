/-
  A client's datagram is executed exactly once.

  `Arrives id frames rounds` says that the frames arrive in these rounds, in order, with
  rounds without frame and frames of foreign IDs anywhere before the last of them. While they
  do, the reader has the bytes sent so far on top of a started reader (`Reading`), whatever it
  held before: the start bit of the first frame discards that. The frames before the last are
  full and leave the datagram open (`receive_reading`); the last one completes it
  (`receive_last`).
-/
import CanBootloader.Firmware.Rounds
import CanBootloader.Firmware.Transmit

namespace CanBootloader

open Lib

/-- A received frame as the bus sees it. -/
def RxFrame.onBus (f : RxFrame) : Nat × List UInt8 := (f.id.toNat, f.data)

/-- The CAN id of the frame is none of 0x000, 0x080, `id` and `id | 0x80`. -/
def Foreign (id : UInt8) (f : RxFrame) : Prop :=
  f.id ≠ 0x000 ∧ f.id ≠ 0x080 ∧ f.id ≠ id.toUInt32 ∧ f.id ≠ (id.toUInt32 ||| 0x80)

instance (id : UInt8) (f : RxFrame) : Decidable (Foreign id f) :=
  inferInstanceAs (Decidable (_ ∧ _))

/-- The frames arrive in order in these rounds, the last of them in the last round; in between
    there is nothing but foreign frames. -/
inductive Arrives (id : UInt8) : List (Nat × List UInt8) → List Round → Prop
  | last {x r f} (hf : r.frame = some f) (hx : f.onBus = x) : Arrives id [x] [r]
  | frame {x xs r rounds f} (hf : r.frame = some f) (hx : f.onBus = x)
      (h : Arrives id xs rounds) : Arrives id (x :: xs) (r :: rounds)
  | foreign {xs r rounds} (hr : ∀ f, r.frame = some f → Foreign id f)
      (h : Arrives id xs rounds) : Arrives id xs (r :: rounds)

theorem Arrives.ne_nil {id : UInt8} {xs : List (Nat × List UInt8)} {rounds : List Round}
    (h : Arrives id xs rounds) : xs ≠ [] := by
  induction h with
  | last _ _ => simp
  | frame _ _ _ _ => simp
  | foreign _ _ ih => exact ih

variable {fw : Firmware} {σ : Type} (p : Platform σ)

theorem frameIsForUs_foreign {config : BootloaderConfig} {f : RxFrame}
    (h : Foreign config.ID f) : frameIsForUs config f.id = false := by
  obtain ⟨h0, h80, hid, hid80⟩ := h
  simp [frameIsForUs, idStartMask, h0, h80, hid, hid80]

/-- What is left of datagram `d` to arrive is `w`: all of it, or a rest behind what the reader
    has. -/
def Reading (s : LoopState fw σ) (d : Datagram) (start : Bool) (w : List UInt8) : Prop :=
  if start then w = d.wire
  else ∃ dt bs, bs ++ w = d.wire ∧ dt.dataBufferSize = UInt32.ofNat fw.inputBufferSize ∧
    s.inbox.dt = canDatagramInput (canDatagramStart dt) bs

/-- A frame of the client, sent from source 0. -/
theorem rx_of_frame {f : RxFrame} {start : Bool} {bytes : List UInt8}
    (h : f.onBus = ((if start then 0x80 else 0) + 0, bytes)) :
    f.id = (if start then idStartMask else 0) ∧ f.data = bytes := by
  obtain ⟨hid, hdata⟩ := Prod.mk.inj h
  refine ⟨?_, hdata⟩
  apply UInt32.toNat.inj
  rw [hid]
  cases start with
  | false => rfl
  | true => rfl

theorem frameIsForUs_client (config : BootloaderConfig) (start : Bool) :
    frameIsForUs config (if start then idStartMask else 0) = true := by
  cases start with
  | false => simp [frameIsForUs]
  | true => simp [frameIsForUs]

/-- A frame of the client is appended to what the reader has of the datagram. -/
theorem appendFrame_reading {s : LoopState fw σ} {d : Datagram} {start : Bool}
    {w : List UInt8} (h : Reading s d start w) {f : RxFrame}
    (hid : f.id = if start then idStartMask else 0) (clock : Nat) {rest : List UInt8}
    (hw : w = f.data ++ rest) : Reading (appendFrame s f clock) d false rest := by
  cases start with
  | true =>
      refine ⟨s.inbox.dt, f.data, ?_, s.inbox.sized, ?_⟩
      · rw [← hw]
        exact h
      · simp [appendFrame, hid, idStartMask, Inbox.start, Inbox.input]
  | false =>
      obtain ⟨dt, bs, hwire, hsize, hdt⟩ := h
      refine ⟨dt, bs ++ f.data, ?_, hsize, ?_⟩
      · rw [List.append_assoc, ← hw, hwire]
      · simp [appendFrame, hid, Inbox.input, hdt, input_append]

theorem inputBufferSize_toNat (fw : Firmware) :
    (UInt32.ofNat fw.inputBufferSize).toNat = fw.inputBufferSize :=
  UInt32.toNat_ofNat_of_lt' fw.inputBufferSize_lt

variable {d : Datagram} (hd : d.destinations ≠ []) (hne : d.data ≠ [])
  (hbuf : d.data.length ≤ fw.inputBufferSize)

include hd hne hbuf

/-- A frame before the last leaves the datagram open. -/
theorem receive_reading {s : LoopState fw σ} {start : Bool} {w : List UInt8}
    (h : Reading s d start w) {r : Round} {f : RxFrame} (hf : r.frame = some f)
    (hid : f.id = if start then idStartMask else 0) (hdata : f.data = w.take 8)
    (hmore : 8 < w.length) :
    receive p s r = ([], some (appendFrame s f r.resetClock)) ∧
      Reading (appendFrame s f r.resetClock) d false (w.drop 8) := by
  have hsplit : w = f.data ++ w.drop 8 := by rw [hdata, List.take_append_drop]
  have hnext := appendFrame_reading h hid r.resetClock hsplit
  refine ⟨?_, hnext⟩
  obtain ⟨dt, bs, hwire, hsize, hdt⟩ := hnext
  apply receive_more p hf
  · rw [hid]
    exact frameIsForUs_client _ _
  · rw [hdt]
    refine input_wire_prefix dt d hd hne ?_ hwire ?_
    · rw [hsize, inputBufferSize_toNat]
      exact hbuf
    · exact List.ne_nil_of_length_pos (by rw [List.length_drop]; omega)
  · rw [hdata, List.length_take]
    omega

/-- The last frame completes the datagram. -/
theorem receive_last {s : LoopState fw σ} {start : Bool} {w : List UInt8}
    (h : Reading s d start w) {r : Round} {f : RxFrame} (hf : r.frame = some f)
    (hid : f.id = if start then idStartMask else 0) (hdata : f.data = w) :
    receive p s r = handleDatagram p (appendFrame s f r.resetClock) f.id r ∧
      Holds (appendFrame s f r.resetClock).inbox.dt d := by
  have hall : w = f.data ++ [] := by rw [hdata, List.append_nil]
  obtain ⟨dt, bs, hwire, hsize, hdt⟩ := appendFrame_reading h hid r.resetClock hall
  have hholds : Holds (appendFrame s f r.resetClock).inbox.dt d := by
    rw [List.append_nil] at hwire
    rw [hdt, hwire]
    refine holds_input_wire dt d hd hne ?_
    rw [hsize, inputBufferSize_toNat]
    exact hbuf
  refine ⟨receive_end p hf ?_ (.inl hholds.complete), hholds⟩
  rw [hid]
  exact frameIsForUs_client _ _

omit hd hne hbuf

/-- The outcome of a delivery: executed once if the node is addressed, else ignored; and the
    reader is at the start of a datagram if the board is still running. -/
def Delivered (id : UInt8) (d : Datagram) (run : List (Event σ) × Option (LoopState fw σ)) : Prop :=
  (id ∈ d.destinations → executed run.1 = [d.data]) ∧
    (id ∉ d.destinations → executed run.1 = [] ∧ transmitted run.1 = []) ∧
    ∀ s', run.2 = some s' → canDatagramStart s'.inbox.dt = s'.inbox.dt

theorem addressed_of_holds {i : Inbox fw} (h : Holds i.dt d) (id : UInt8) :
    i.addressed id = decide (id ∈ d.destinations) := by
  unfold Inbox.addressed
  rw [h.destinationNodesLen, d.destinations_toNat, h.destinationNodes]
  rw [Bool.eq_iff_iff]
  simp

theorem payload_of_holds {i : Inbox fw} (h : Holds i.dt d) : i.payload = d.data := by
  rw [Inbox.payload, h.dataLen, d.data_toNat, h.data]

/-- The end of a datagram the reader holds. -/
theorem handleDatagram_delivered (hcrc : CrcIsZlib fw.crc32) {s : LoopState fw σ}
    (h : Holds s.inbox.dt d) (id : UInt32) (r : Round) :
    Delivered s.config.ID d (handleDatagram p s id r) := by
  have hvalid := holds_valid hcrc h
  refine ⟨?_, ?_, fun s' hs' => handleDatagram_restarts p hs'⟩
  · intro hmem
    rw [handleDatagram_addressed p hvalid (by rw [addressed_of_holds h]; simpa using hmem)]
    cases hvalue : (execution p s r).value with
    | none => simp [payload_of_holds h]
    | some e =>
        have hreply : ∀ (s' : LoopState fw σ) id send,
            executed (sendReply s' id e send).1 = [] := by
          intro s' id send
          unfold sendReply
          simp only
          split_ifs
          · simp
          · simp
        simp [payload_of_holds h, hreply]
  · intro hmem
    rw [handleDatagram_other p hvalid (by rw [addressed_of_holds h]; simpa using hmem)]
    simp

include hd hne hbuf

/-- The last frame of a datagram has arrived: what the rounds up to it amount to. -/
structure Arrived (s : LoopState fw σ) (d : Datagram) (rounds : List Round)
    (t : LoopState fw σ) (r : Round) (id : UInt32) : Prop where
  run : runRounds p s rounds = handleDatagram p t id r
  holds : Holds t.inbox.dt d
  config : t.config = s.config
  world : t.world = s.world
  mem : r ∈ rounds

omit hd hne hbuf in
/-- A round before the last one. -/
theorem Arrived.cons {s s' t : LoopState fw σ} {r r' : Round} {rounds : List Round} {id : UInt32}
    (hround : roundStep p s r = ([], some s')) (hconfig : s'.config = s.config)
    (hworld : s'.world = s.world) (h : Arrived p s' d rounds t r' id) :
    Arrived p s d (r :: rounds) t r' id where
  run := by rw [runRounds_cons_some p hround, h.run, List.nil_append]
  holds := h.holds
  config := h.config.trans hconfig
  world := h.world.trans hworld
  mem := List.mem_cons_of_mem r h.mem

omit hd hne hbuf in
theorem appendFrame_world (s : LoopState fw σ) (f : RxFrame) (clock : Nat) :
    (appendFrame s f clock).world = s.world := by
  unfold appendFrame
  simp only
  split_ifs
  · rfl
  · rfl

/-- The frames of a datagram, or of the rest of one, arrive: induction on the rounds. -/
theorem arrived_of_arrives {id : UInt8} {xs : List (Nat × List UInt8)} {rounds : List Round}
    (harrive : Arrives id xs rounds) :
    ∀ (s : LoopState fw σ) (start : Bool) (w : List UInt8), s.config.ID = id →
      xs = (datagramToFramesFrom (if start then 0x80 else 0) w 0).map Frame.onBus →
      Reading s d start w → (∀ e ∈ (runRounds p s rounds).1, ¬ e.isTimeout) →
      ∃ t r id, Arrived p s d rounds t r id := by
  induction harrive with
  | @last x r f hf hx =>
      intro s start w hid hframes hread hquiet
      have hround := roundStep_quiet_of_run p hquiet
      have hlast : w.length ≤ 8 := by
        by_contra hmore
        rw [datagramToFramesFrom_more _ _ (by omega), List.map_cons, List.cons.injEq] at hframes
        exact datagramToFramesFrom_ne_nil _ _ _ (List.map_eq_nil_iff.mp hframes.2.symm)
      rw [datagramToFramesFrom_last _ _ hlast, List.map_singleton, List.cons.injEq] at hframes
      obtain ⟨hfid, hdata⟩ := rx_of_frame (hx.trans hframes.1)
      obtain ⟨hrecv, hholds⟩ := receive_last p hd hne hbuf hread hf hfid hdata
      refine ⟨_, r, f.id, ?_, hholds, appendFrame_config _ _ _, appendFrame_world _ _ _,
        List.mem_singleton_self r⟩
      rw [← hrecv, ← hround]
      rcases hstep : roundStep p s r with ⟨events, _ | s'⟩
      · rw [runRounds_cons_none p hstep]
      · rw [runRounds_cons_some p hstep]
        simp [runRounds]
  | @frame x xs r rounds f hf hx h ih =>
      intro s start w hid hframes hread hquiet
      have hround := roundStep_quiet_of_run p hquiet
      have hmore : 8 < w.length := by
        by_contra hlast
        rw [datagramToFramesFrom_last _ _ (by omega), List.map_singleton, List.cons.injEq]
          at hframes
        exact h.ne_nil hframes.2
      rw [datagramToFramesFrom_more _ _ hmore, List.map_cons, List.cons.injEq] at hframes
      obtain ⟨hfid, hdata⟩ := rx_of_frame (hx.trans hframes.1)
      obtain ⟨hrecv, hnext⟩ := receive_reading p hd hne hbuf hread hf hfid hdata hmore
      rw [hrecv] at hround
      rw [runRounds_cons_some p hround, List.nil_append] at hquiet
      obtain ⟨t, r', id', hrest⟩ := ih _ false (w.drop 8) (by rw [appendFrame_config, hid])
        hframes.2 hnext hquiet
      exact ⟨t, r', id', hrest.cons p hround (appendFrame_config _ _ _) (appendFrame_world _ _ _)⟩
  | @foreign xs r rounds hr h ih =>
      intro s start w hid hframes hread hquiet
      have hround := roundStep_quiet_of_run p hquiet
      rw [receive_ignored p fun f hf => frameIsForUs_foreign (by rw [hid]; exact hr f hf)] at hround
      rw [runRounds_cons_some p hround, List.nil_append] at hquiet
      obtain ⟨t, r', id', hrest⟩ := ih s start w hid hframes hread hquiet
      exact ⟨t, r', id', hrest.cons p hround rfl rfl⟩

/-- What the node does with them. -/
theorem delivered_of_arrives (hcrc : CrcIsZlib fw.crc32) {id : UInt8}
    {xs : List (Nat × List UInt8)} {rounds : List Round} (harrive : Arrives id xs rounds) :
    ∀ (s : LoopState fw σ) (start : Bool) (w : List UInt8), s.config.ID = id →
      xs = (datagramToFramesFrom (if start then 0x80 else 0) w 0).map Frame.onBus →
      Reading s d start w → (∀ e ∈ (runRounds p s rounds).1, ¬ e.isTimeout) →
      Delivered id d (runRounds p s rounds) := by
  intro s start w hid hframes hread hquiet
  obtain ⟨t, r, id', h⟩ :=
    arrived_of_arrives p hd hne hbuf harrive s start w hid hframes hread hquiet
  have hdone := handleDatagram_delivered p hcrc h.holds id' r
  rwa [h.config, hid, ← h.run] at hdone

omit hd hne hbuf

/-- Whatever state the main loop is in: when the frames of a client's datagram arrive and no
    timeout fires meanwhile, a node that is among the destinations executes exactly that
    payload, once; any other node executes nothing and sends nothing; and the reader is then at
    the start of a datagram. -/
theorem delivery_exactly_once (fw : Firmware) (hcrc : CrcIsZlib fw.crc32) (p : Platform σ)
    (s : LoopState fw σ) (payload destinations bytes : List UInt8)
    (hpayload : payload ≠ [] ∧ payload.length ≤ fw.inputBufferSize)
    (hdestinations : destinations ≠ [] ∧ destinations.length ≤ 128)
    (hbytes : encodeDatagram payload destinations = some bytes) (rounds : List Round)
    (harrive : Arrives s.config.ID ((datagramToFrames bytes 0).map Frame.onBus) rounds)
    (hquiet : ∀ e ∈ (runRounds p s rounds).1, ¬ e.isTimeout) :
    (s.config.ID ∈ destinations → executed (runRounds p s rounds).1 = [payload]) ∧
      (s.config.ID ∉ destinations →
        executed (runRounds p s rounds).1 = [] ∧ transmitted (runRounds p s rounds).1 = []) ∧
      ∀ s', (runRounds p s rounds).2 = some s' →
        canDatagramStart s'.inbox.dt = s'.inbox.dt := by
  obtain ⟨d, rfl, rfl, rfl⟩ := encodeDatagram_some hbytes
  exact delivered_of_arrives p hdestinations.1 hpayload.1 hpayload.2 hcrc harrive s true d.wire
    rfl rfl rfl hquiet

/-- A ping for node 1, with another node's frame and an empty round in between. -/
theorem delivery_exactly_once_ping :
    executed (runRounds blankPlatform blankState
      [blankRound (some ⟨0x80, [1, 87, 60, 167, 97, 1, 1, 0], by decide⟩),
       blankRound (some ⟨0x25, [1, 2, 3], by decide⟩),
       blankRound none,
       blankRound (some ⟨0x00, [0, 0, 2, 3, 5], by decide⟩)]).1 = [[3, 5]] := by
  have hbytes : encodeDatagram [3, 5] [1] =
      some [1, 87, 60, 167, 97, 1, 1, 0, 0, 0, 2, 3, 5] := by decide +kernel
  have hframes : (datagramToFrames [1, 87, 60, 167, 97, 1, 1, 0, 0, 0, 2, 3, 5] 0).map
      Frame.onBus = [(0x80, [1, 87, 60, 167, 97, 1, 1, 0]), (0, [0, 0, 2, 3, 5])] := by
    rw [datagramToFrames, datagramToFramesFrom_more _ _ (by decide),
      datagramToFramesFrom_last _ _ (by decide)]
    rfl
  refine (delivery_exactly_once nucleoFirmware (fun _ _ => rfl) blankPlatform blankState
    [3, 5] [1] _ (by decide) (by decide) hbytes _ ?_ ?_).1 (by decide)
  · rw [hframes]
    refine .frame rfl rfl (.foreign ?_ (.foreign ?_ (.last rfl rfl)))
    · rintro f ⟨⟩
      decide
    · rintro f ⟨⟩
  · exact noTimeout_of_all (by decide +kernel)

end CanBootloader
