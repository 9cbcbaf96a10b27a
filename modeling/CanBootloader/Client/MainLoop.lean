/-
  The main loop as a board of a session.

  A session knows a board by its configuration and its flash memory, and by what it does: it
  executes a command and replies, complains, or reboots (`Act`). The main loop has much more of
  a state, and gets frames, not commands.

  * `main_loop_refines`: whatever a run of the main loop receives, it is a run of such a board.
-/
import CanBootloader.Client.Boards
import CanBootloader.Firmware.BootSafety
import CanBootloader.Firmware.Delivery
import CanBootloader.Firmware.Replies

namespace CanBootloader

open Lib

variable {fw : Firmware} {σ : Type}

/-! ## Acts -/

/-- What a board does. A datagram with the jump command, or none at all, makes it reboot. -/
inductive Act where
  | execute (payload : List UInt8) (reply : BoardReply) (sent : List Transmission)
  | complain (code : UInt8) (sent : List Transmission)
  | reboot (payload : Option (List UInt8)) (arg : UInt8)

namespace Act

def executed : Act → Option (List UInt8)
  | execute payload _ _ => some payload
  | complain _ _ => none
  | reboot payload _ => payload

def sent : Act → List Transmission
  | execute _ _ sent => sent
  | complain _ sent => sent
  | reboot _ _ => []

def rebooted : Act → Option UInt8
  | reboot _ arg => some arg
  | _ => none

end Act

/-- The frames of a datagram from this source, as the client would send them. -/
def busFrames (source : Nat) (d : Datagram) : List (Nat × List UInt8) :=
  (datagramToFrames d.wire source).map Frame.onBus

/-- The frames of a datagram with these contents, from a node with this ID; not all of them if a
    transmission failed. -/
def Sends (id : UInt8) (bytes : List UInt8) (txs : List Transmission) : Prop :=
  ∃ d : Datagram, d.data = bytes ∧
    txs.map Transmission.onBus <+: nodeFrames id 0x80 d.wire ∧
    ((∀ t ∈ txs, t.ok = true) → txs.map Transmission.onBus = nodeFrames id 0x80 d.wire)

/-- An error datagram is sent without the eighth bit of the ID. -/
def SendsError (id code : UInt8) (txs : List Transmission) : Prop :=
  Sends (id &&& ~~~0x80) (Msgpack.uint code.toNat) txs

/-- The reply to a command. An error datagram with code zero stands for one of length zero. -/
def SendsReply (id : UInt8) (bytes : List UInt8) (txs : List Transmission) : Prop :=
  Sends id bytes txs ∨ bytes = Msgpack.uint 0 ∧ SendsError id 0 txs

theorem and_not_startMask {id : UInt8} (h : id.toNat ≤ 127) : id &&& ~~~0x80 = id := by
  apply UInt8.toNat.inj
  have hall : ∀ n : Fin 128, (UInt8.ofNat n &&& ~~~0x80).toNat = n := by decide
  have hid := hall ⟨id.toNat, by omega⟩
  rwa [UInt8.ofNat_toNat] at hid

/-- From an ID of seven bits these are the client's frames. -/
theorem Sends.busFrames {id : UInt8} {bytes : List UInt8} {txs : List Transmission}
    (h : Sends id bytes txs) :
    ∃ d : Datagram, d.data = bytes ∧ (id.toNat ≤ 127 → (∀ t ∈ txs, t.ok = true) →
      txs.map Transmission.onBus = CanBootloader.busFrames id.toNat d) := by
  obtain ⟨d, hd, -, hall⟩ := h
  refine ⟨d, hd, fun hid hok => ?_⟩
  rw [hall hok, nodeFrames_of_le hid _ (.inr rfl) le_rfl]
  rfl

theorem SendsError.busFrames {id code : UInt8} {txs : List Transmission}
    (h : SendsError id code txs) :
    ∃ d : Datagram, d.data = Msgpack.uint code.toNat ∧ (id.toNat ≤ 127 →
      (∀ t ∈ txs, t.ok = true) →
        txs.map Transmission.onBus = CanBootloader.busFrames id.toNat d) := by
  obtain ⟨d, hd, hframes⟩ := Sends.busFrames h
  refine ⟨d, hd, fun hid hok => ?_⟩
  rw [and_not_startMask hid] at hframes
  exact hframes hid hok

theorem SendsReply.busFrames {id : UInt8} {bytes : List UInt8} {txs : List Transmission}
    (h : SendsReply id bytes txs) :
    ∃ d : Datagram, d.data = bytes ∧ (id.toNat ≤ 127 → (∀ t ∈ txs, t.ok = true) →
      txs.map Transmission.onBus = CanBootloader.busFrames id.toNat d) := by
  rcases h with h | ⟨rfl, h⟩
  · exact h.busFrames
  · exact h.busFrames

variable (fw) (p : Platform σ)

/-- Act after act. A run ends with a board, or with a reboot. -/
inductive BoardRun : Board σ → List Act → Option (Board σ) → Prop
  | nil (n : Board σ) : BoardRun n [] (some n)
  | execute {n m : Board σ} {payload : List UInt8} {a : BoardReply} {sent : List Transmission}
      {acts : List Act} {last : Option (Board σ)} (h : boardExec fw p n payload a m)
      (hsent : SendsReply m.config.ID a.bytes sent) (hrest : BoardRun m acts last) :
      BoardRun n (.execute payload a sent :: acts) last
  | complain {n : Board σ} {code : UInt8} {sent : List Transmission} {acts : List Act}
      {last : Option (Board σ)} (hcode : code = errorCorruptDatagram ∨ code = errorDatagramTimeout)
      (hsent : SendsError n.config.ID code sent) (hrest : BoardRun n acts last) :
      BoardRun n (.complain code sent :: acts) last
  | reboot (n : Board σ) (payload : Option (List UInt8)) :
      BoardRun n [.reboot payload (jumpArgument fw (p.mem n.world) n.config)] none

variable {fw} {p}

theorem BoardRun.append {n m : Board σ} {acts acts' : List Act} {last : Option (Board σ)}
    (h : BoardRun fw p n acts (some m)) (h' : BoardRun fw p m acts' last) :
    BoardRun fw p n (acts ++ acts') last := by
  generalize hm : some m = middle at h
  induction h with
  | nil n =>
      cases hm
      exact h'
  | execute hexec hsent _ ih => exact .execute hexec hsent (ih hm)
  | complain hcode hsent _ ih => exact .complain hcode hsent (ih hm)
  | reboot => cases hm

/-! ## Events -/

/-- The boot argument of a request to reboot. -/
def Event.rebooted : Event σ → Option UInt8
  | .call _ (.rebootSystem arg) => some arg
  | _ => none

/-- The boot arguments of the reboots that are requested. -/
def rebooted (events : List (Event σ)) : List UInt8 := events.filterMap Event.rebooted

@[simp] theorem rebooted_nil : rebooted ([] : List (Event σ)) = [] := rfl

@[simp] theorem rebooted_append (xs ys : List (Event σ)) :
    rebooted (xs ++ ys) = rebooted xs ++ rebooted ys := List.filterMap_append

@[simp] theorem rebooted_execute (data : List UInt8) (xs : List (Event σ)) :
    rebooted (.execute data :: xs) = rebooted xs := rfl

@[simp] theorem rebooted_sent (txs : List Transmission) :
    rebooted (txs.map Event.sent : List (Event σ)) = [] := by
  simp [rebooted, Event.rebooted]

theorem rebooted_calls {calls : List (σ × Call)} (h : ∀ c ∈ calls, c.2.NoReboot) :
    rebooted (callEvents calls) = [] := by
  rw [rebooted, callEvents, List.filterMap_map, List.filterMap_eq_nil_iff]
  rintro ⟨w, c⟩ hc
  cases c with
  | rebootSystem arg => exact absurd (h _ hc) not_false
  | _ => rfl

/-- The events show what the acts do. -/
structure Shows (acts : List Act) (events : List (Event σ)) : Prop where
  executed : executed events = acts.filterMap Act.executed
  transmitted : transmitted events = acts.flatMap Act.sent
  rebooted : rebooted events = acts.filterMap Act.rebooted

theorem Shows.append {acts acts' : List Act} {events events' : List (Event σ)}
    (h : Shows acts events) (h' : Shows acts' events') :
    Shows (acts ++ acts') (events ++ events') where
  executed := by rw [executed_append, h.executed, h'.executed, List.filterMap_append]
  transmitted := by rw [transmitted_append, h.transmitted, h'.transmitted, List.flatMap_append]
  rebooted := by rw [rebooted_append, h.rebooted, h'.rebooted, List.filterMap_append]

theorem Shows.nil : Shows [] ([] : List (Event σ)) := ⟨rfl, rfl, rfl⟩

/-- The board of a state of the main loop. -/
def LoopState.board (s : LoopState fw σ) : Board σ := ⟨s.config, s.world⟩

variable (p) in
/-- These events, which end in this state or in a reboot, are those of a run of the board. -/
def Refines (n : Board σ) (run : List (Event σ) × Option (LoopState fw σ)) : Prop :=
  ∃ acts, BoardRun fw p n acts (run.2.map LoopState.board) ∧ Shows acts run.1

theorem Refines.append {n : Board σ} {events : List (Event σ)} {s : LoopState fw σ}
    {run : List (Event σ) × Option (LoopState fw σ)} (h : Refines p n (events, some s))
    (h' : Refines p s.board run) : Refines p n (events ++ run.1, run.2) := by
  obtain ⟨acts, hrun, hshows⟩ := h
  obtain ⟨acts', hrun', hshows'⟩ := h'
  exact ⟨acts ++ acts', hrun.append hrun', hshows.append hshows'⟩

/-- Nothing happens. -/
theorem Refines.quiet {n : Board σ} {s : LoopState fw σ} (h : s.board = n) :
    Refines p n ([], some s) :=
  ⟨[], h ▸ .nil _, .nil⟩

/-! ## Replies -/

/-- What `return_datagram` sends. -/
theorem sends_returnDatagram (hcrc : CrcIsZlib fw.crc32) (id destId : UInt8) (data : Store)
    {len : Nat} (hlen : len ≤ 789) (send : Nat → Bool) :
    Sends id (data.slice 0 len) (returnDatagram fw id destId data len send) := by
  refine ⟨replyDatagram destId data len (by omega), rfl, ?_⟩
  rw [← returnDatagram_frames hcrc id destId data hlen
    (show ∀ _ : Nat, true = true from fun _ => rfl)]
  exact returnLoop_prefix id send 100 0 true (returnedDatagram fw destId data len)

/-- The bytes of an error datagram are its code. -/
theorem errorDatagram_bytes (hwrite : WriteLaw fw.cmp) (hroom : 0 < fw.outputBufferSize)
    (outputBuf : Store) {code : UInt8} (hcode : code.toNat < 128) :
    let w := fw.cmp.writeUint (.init outputBuf fw.outputBufferSize) code.toUInt64
    w.buf.slice 0 w.pos = Msgpack.uint code.toNat ∧ w.pos = 1 := by
  have hlen : (Msgpack.uint code.toNat).length = 1 := by
    rw [Msgpack.uint, if_pos hcode]
    rfl
  have hput : fw.cmp.writeUint (.init outputBuf fw.outputBufferSize) code.toUInt64 =
      (CmpWriter.init outputBuf fw.outputBufferSize).put (Msgpack.uint code.toNat) :=
    hwrite.writeUint _ _ (by
      rw [UInt8.toNat_toUInt64, hlen]
      exact hroom)
  simp only [hput]
  exact ⟨CmpWriter.written_put _ _, by simp [CmpWriter.put, CmpWriter.init, hlen]⟩

/-- What `return_error_datagram` sends. -/
theorem sends_returnErrorDatagram (hcrc : CrcIsZlib fw.crc32) (hwrite : WriteLaw fw.cmp)
    (hroom : 0 < fw.outputBufferSize) (id : UInt8) (outputBuf : Store) {code : UInt8}
    (hcode : code.toNat < 128) (send : Nat → Bool) :
    SendsError id code (returnErrorDatagram fw id outputBuf code send).1 := by
  obtain ⟨hbytes, hlen⟩ := errorDatagram_bytes hwrite hroom outputBuf hcode
  have hsends := sends_returnDatagram hcrc (id &&& ~~~0x80) 0
    (fw.cmp.writeUint (.init outputBuf fw.outputBufferSize) code.toUInt64).buf
    (show (fw.cmp.writeUint (.init outputBuf fw.outputBufferSize) code.toUInt64).pos ≤ 789 by
      omega) send
  rw [hbytes] at hsends
  exact hsends

/-- What the main loop sends behind an execution. -/
theorem sends_sendReply (hcrc : CrcIsZlib fw.crc32) (hwrite : WriteLaw fw.cmp)
    (hroom : 0 < fw.outputBufferSize) (s : LoopState fw σ) (id : UInt32) (e : Execution)
    (send : Nat → Bool) :
    ∃ txs, (sendReply s id e send).1 = txs.map Event.sent ∧
      SendsReply e.config.ID (e.reply fw) txs ∧
      (sendReply s id e send).2.board = ⟨e.config, s.world⟩ := by
  unfold sendReply Execution.reply
  simp only
  split_ifs with hpos
  · have hlt := (UInt8.ofInt e.result).toNat_lt
    exact ⟨_, rfl, .inl (sends_returnDatagram hcrc _ _ _ (by omega) _), rfl⟩
  · have hzero : UInt8.ofInt e.result = 0 := by
      by_contra hne
      exact hpos (UInt8.pos_iff_ne_zero.mpr hne)
    obtain ⟨hbytes, -⟩ :=
      errorDatagram_bytes hwrite hroom e.outBuf (show UInt8.toNat 0 < 128 by decide)
    have hsends := sends_returnErrorDatagram hcrc hwrite hroom e.config.ID e.outBuf
      (show UInt8.toNat 0 < 128 by decide) send
    rw [hzero]
    exact ⟨_, rfl, .inr ⟨hbytes, hsends⟩, rfl⟩

/-! ## Executions -/

/-- An execution that returns has not rebooted. -/
theorem noReboot_of_value {α : Type} {c : Code α} {w : σ} {a : α}
    (h : (Prog.run p.handler c w).value = some a) :
    ∀ x ∈ (Prog.run p.handler c w).calls, x.2.NoReboot := by
  induction c generalizing w with
  | ret a => simp
  | call op k ih =>
      cases hop : p.handler op w with
      | none =>
          rw [Prog.run_call_none _ hop] at h
          exact absurd h (by simp)
      | some rw' =>
          rw [Prog.run_call_some _ hop] at h ⊢
          intro x hx
          rcases List.mem_cons.mp hx with rfl | hx
          · cases op with
            | rebootSystem arg => simp [Platform.handler] at hop
            | _ => trivial
          · exact ih _ h x hx

/-- A program without reboots returns. -/
theorem value_of_noReboot {α : Type} {c : Code α} (hc : c.AllCalls Call.NoReboot) (w : σ) :
    (Prog.run p.handler c w).value ≠ none := by
  obtain ⟨a, v, hvalue, -⟩ : ∃ a v, Prog.Returns p.handler c w a v := by
    refine hc.returns (fun op w hop => ?_) w
    cases op with
    | rebootSystem arg => exact hop.elim
    | _ => exact ⟨_, _, rfl⟩
  simp [hvalue]

/-- An execution that does not return looks at the memory and reboots. -/
theorem execute_halted (hjump : fw.commandJumpDisableCrcChecking = false) {x : DatagramCall}
    {w : σ} (h : (Prog.run p.handler (x.code fw) w).value = none) :
    (Prog.run p.handler (x.code fw) w).calls =
      [(w, .memory), (w, .rebootSystem (jumpArgument fw (p.mem w) x.config))] := by
  rcases executeDatagramCommands_cases fw x.data x.dataLen x.outBuf x.outLen x.config x.status
    x.locals with ⟨c, -, heq⟩ | ⟨cmd, hcmd, i, hconfig, -, heq⟩
  · rw [DatagramCall.code, heq] at h
    exact absurd h (by simp)
  · rw [DatagramCall.code, heq] at h ⊢
    rcases callback_calls hcmd with hjumps | hothers
    · rw [Prog.run_bind_ret_calls, hjumps, commandJumpToApplication,
        jumpToApplication_calls p hjump, hconfig]
    · refine absurd h (value_of_noReboot (.bind (hothers i) fun r => ?_) w)
      exact (Prog.allCalls_ret _ _).mpr trivial

/-! ## Rounds -/

section Rounds

variable (hcrc : CrcIsZlib fw.crc32) (hwrite : WriteLaw fw.cmp) (hroom : 0 < fw.outputBufferSize)
  (hjump : fw.commandJumpDisableCrcChecking = false)

include hcrc hwrite hroom

theorem checkDatagramTimeout_refines (s : LoopState fw σ) (r : Round) :
    Refines p s.board ((checkDatagramTimeout s r).1, some (checkDatagramTimeout s r).2) := by
  unfold checkDatagramTimeout
  split_ifs
  · let txs := (returnErrorDatagram fw s.config.ID s.outputBuf errorDatagramTimeout
      r.timeoutSend).1
    refine ⟨[.complain errorDatagramTimeout txs], ?_, ?_⟩
    · exact .complain (.inr rfl)
        (sends_returnErrorDatagram hcrc hwrite hroom _ _ (by decide) _) (.nil _)
    · refine ⟨executed_sent txs, ?_, rebooted_sent txs⟩
      exact (transmitted_sent txs).trans (List.append_nil _).symm
  · exact .quiet rfl

/-- A datagram for the board is executed, and what is sent is the reply. -/
theorem handleDatagram_executes {s s' : LoopState fw σ} {id : UInt32} {r : Round}
    (hvalid : canDatagramIsValid fw.crc32 s.inbox.dt = true)
    (haddr : s.inbox.addressed s.config.ID = true) (hnext : (handleDatagram p s id r).2 = some s') :
    ∃ a, boardExec fw p s.board s.inbox.payload a s'.board ∧
      SendsReply s'.config.ID a.bytes (transmitted (handleDatagram p s id r).1) ∧
      executed (handleDatagram p s id r).1 = [s.inbox.payload] ∧
      rebooted (handleDatagram p s id r).1 = [] := by
  rw [handleDatagram_addressed p hvalid haddr] at hnext ⊢
  cases hvalue : (execution p s r).value with
  | none => simp [hvalue] at hnext
  | some e =>
      simp only [hvalue, Option.some.injEq] at hnext ⊢
      obtain ⟨txs, htxs, hsends, hboard⟩ := sends_sendReply hcrc hwrite hroom
        { s with
          datagramTimeoutRunning := false
          status := success
          bootloaderTimeoutEnabled := false
          world := (execution p s r).world } id e r.replySend
      have hs' : s'.board = ⟨e.config, (execution p s r).world⟩ := by
        rw [← hboard, ← hnext]
        rfl
      have hconfig : s'.config = e.config := congrArg Board.config hs'
      have hquiet : rebooted (callEvents (execution p s r).calls) = [] :=
        rebooted_calls (noReboot_of_value hvalue)
      refine ⟨⟨e.reply fw, (execution p s r).calls.map Prod.snd⟩, ?_, ?_, ?_, ?_⟩
      · rw [hs']
        exact ⟨⟨s.inbox.dt.data, s.inbox.dt.dataLen.toNat, s.outputBuf, fw.outputBufferSize,
          s.config, success, r.locals⟩, e, rfl, rfl, rfl, rfl, ⟨hvalue, rfl⟩, rfl, rfl⟩
      · rw [hconfig, htxs]
        simpa using hsends
      · simp [htxs]
      · rw [htxs, rebooted_append, rebooted_execute, hquiet, rebooted_sent]
        rfl

omit hcrc hwrite hroom

include hjump

/-- A datagram that lets the board reboot. -/
theorem handleDatagram_halted {s : LoopState fw σ} {id : UInt32} {r : Round}
    (hvalid : canDatagramIsValid fw.crc32 s.inbox.dt = true)
    (haddr : s.inbox.addressed s.config.ID = true) (hnext : (handleDatagram p s id r).2 = none) :
    (handleDatagram p s id r).1 = .execute s.inbox.payload :: callEvents
      [(s.world, .memory), (s.world, .rebootSystem (jumpArgument fw (p.mem s.world) s.config))] := by
  rw [handleDatagram_addressed p hvalid haddr] at hnext ⊢
  cases hvalue : (execution p s r).value with
  | none =>
      have hcalls := execute_halted hjump (x := ⟨s.inbox.dt.data, s.inbox.dt.dataLen.toNat,
        s.outputBuf, fw.outputBufferSize, s.config, success, r.locals⟩) hvalue
      simp only
      rw [← hcalls]
      rfl
  | some e => simp [hvalue] at hnext

include hcrc hwrite hroom

/-- The end of a datagram. -/
theorem handleDatagram_refines (s : LoopState fw σ) (id : UInt32) (r : Round) :
    Refines p s.board (handleDatagram p s id r) := by
  cases hvalid : canDatagramIsValid fw.crc32 s.inbox.dt with
  | false =>
      rw [handleDatagram_corrupt p hvalid]
      let txs := (returnErrorDatagram fw s.config.ID s.outputBuf errorCorruptDatagram
        r.replySend).1
      refine ⟨[.complain errorCorruptDatagram txs], ?_, ?_⟩
      · exact .complain (.inl rfl)
          (sends_returnErrorDatagram hcrc hwrite hroom _ _ (by decide) _) (.nil _)
      · refine ⟨executed_sent txs, ?_, rebooted_sent txs⟩
        exact (transmitted_sent txs).trans (List.append_nil _).symm
  | true =>
      cases haddr : s.inbox.addressed s.config.ID with
      | false =>
          rw [handleDatagram_other p hvalid haddr]
          exact .quiet rfl
      | true =>
          cases hnext : (handleDatagram p s id r).2 with
          | none =>
              have hcalls := handleDatagram_halted hjump hvalid haddr hnext
              refine ⟨[.reboot (some s.inbox.payload) _], by rw [hnext]; exact .reboot s.board _, ?_⟩
              rw [hcalls]
              exact ⟨by simp [Act.executed], by simp [Act.sent], rfl⟩
          | some s' =>
              obtain ⟨a, hexec, hsends, hexecuted, hreboot⟩ :=
                handleDatagram_executes hcrc hwrite hroom hvalid haddr hnext
              refine ⟨[.execute s.inbox.payload a (transmitted (handleDatagram p s id r).1)], ?_, ?_⟩
              · rw [hnext]
                exact .execute hexec hsends (.nil _)
              · exact ⟨hexecuted, (List.append_nil _).symm, hreboot⟩

theorem receive_refines (s : LoopState fw σ) (r : Round) : Refines p s.board (receive p s r) := by
  unfold receive
  cases r.frame with
  | none => exact .quiet rfl
  | some f =>
      have hboard : (appendFrame s f r.resetClock).board = s.board := by
        unfold appendFrame LoopState.board
        simp only
        split_ifs
        · rfl
        · rfl
      simp only
      split_ifs
      · rw [← hboard]
        exact handleDatagram_refines hcrc hwrite hroom hjump _ f.id r
      · exact .quiet hboard
      · exact .quiet rfl

theorem roundStep_refines (s : LoopState fw σ) (r : Round) :
    Refines p s.board (roundStep p s r) := by
  unfold roundStep
  split_ifs
  · refine ⟨[.reboot none _], .reboot s.board _, ?_⟩
    simp only [jumpToApplication_calls p hjump]
    exact ⟨rfl, rfl, rfl⟩
  · exact (checkDatagramTimeout_refines hcrc hwrite hroom s r).append
      (receive_refines hcrc hwrite hroom hjump _ r)

/-- Round after round. -/
theorem main_loop_acts (rounds : List Round) :
    ∀ s : LoopState fw σ, Refines p s.board (runRounds p s rounds) := by
  induction rounds with
  | nil => exact fun s => .quiet rfl
  | cons r rounds ih =>
      intro s
      have hround := roundStep_refines (p := p) hcrc hwrite hroom hjump s r
      rcases hstep : roundStep p s r with ⟨events, _ | s'⟩
      · rw [runRounds_cons_none p hstep]
        rwa [hstep] at hround
      · rw [runRounds_cons_some p hstep]
        rw [hstep] at hround
        exact hround.append (ih s')

end Rounds

/-- Whatever a run of the main loop receives, it is a run of a board: its executions, the frames
    that it sends and its request to reboot are those of the board's acts, and so are the
    configuration and the flash memory at its end. This holds for every ID. -/
theorem main_loop_refines (fw : Firmware) (hcrc : CrcIsZlib fw.crc32) (hwrite : WriteLaw fw.cmp)
    (hroom : 0 < fw.outputBufferSize) (hjump : fw.commandJumpDisableCrcChecking = false)
    (p : Platform σ) (s : LoopState fw σ) (rounds : List Round) :
    ∃ acts, BoardRun fw p s.board acts ((runRounds p s rounds).2.map LoopState.board) ∧
      Shows acts (runRounds p s rounds).1 :=
  main_loop_acts hcrc hwrite hroom hjump rounds s

/-- A ping, behind a round without a frame. -/
theorem main_loop_refines_ping : ∃ acts,
    BoardRun nucleoFirmware blankPlatform pingState.board acts
      ((runRounds blankPlatform pingState [blankRound none, blankRound (some pingFrame)]).2.map
        LoopState.board) ∧
    Shows acts (runRounds blankPlatform pingState
      [blankRound none, blankRound (some pingFrame)]).1 :=
  main_loop_refines nucleoFirmware (fun _ _ => rfl) Cmp.reference_write (by decide) rfl
    blankPlatform pingState [blankRound none, blankRound (some pingFrame)]

end CanBootloader
