/-
  Sessions: calls of `write_command_retry` one after the other, with boards on a bus that loses
  requests and replies.

  The tools of the client are lists of calls (`PlanStep`). What they do with the answers decides
  how they go on: `flash_image` looks at the codes, repeats the request or gives up, and
  `config_update_and_save` does not look at all (`runPlan`).

  The boards are nodes that execute a command of a transmission that is for their ID, or miss it.
  A board that misses a part of it can complain, whoever it is for. What they send is in the
  reception buffer until it is cleared, or lost; nothing is late (`BusStep`). What a transmission
  does to the boards, and when the client gives up waiting, is said by a `Medium`; sessions over
  one medium are sessions over another that simulates it (`SessionRun.simulates_plan`).

  `plan_refines` is what a session without errors means for each board: it executes the commands
  of the plan in their order, each any number of times, and behind those that need answers there
  is one that the client accepted. Where the client does not look at the answers, a complaint
  counts as one.
-/
import CanBootloader.Client.Completion
import CanBootloader.Client.Verify
import CanBootloader.Lib.AtLeastOnce

namespace CanBootloader

open Lib AtLeastOnce

/-! ## Plans -/

/-- The result of `msgpack.unpackb`, as far as the client looks at it: an object that is equal to
    an integer, another object, or an exception. -/
inductive Unpacked where
  | number (n : Int)
  | other
  | raised
  deriving DecidableEq

/-- `msgpack.unpackb`. -/
structure Unpackb where
  result : List UInt8 → Unpacked
  result_number : ∀ {bytes : List UInt8} {n : Int}, unpackNumber bytes = some n →
    result bytes = .number n

/-- How a tool goes on behind a call: with the next one, with the next one and an error noted,
    with the same one again, or not at all. -/
inductive Verdict where
  | success
  | failed
  | again
  | exit
  | raised
  deriving DecidableEq

/-- The codes that let `flash_image` repeat a request: `CORRUPT_DATAGRAM` and
    `DATAGRAM_TIMEOUT`. -/
def retryCodes : List Int := [2, 6]

/-- A call of `write_command_retry`, with the codes that are fatal if its answers are looked
    at. -/
structure PlanStep where
  call : RetryCall
  fatal : Option (List Int)

/-- What `flash_image` does with these results of `unpackb`. -/
def judge (fatal : List Int) (codes : List Unpacked) : Verdict :=
  if .raised ∈ codes then .raised
  else if ∀ code ∈ codes, code = .number 1 then .success
  else if ∃ code ∈ codes, ∃ n ∈ fatal, code = .number n then .exit
  else if ∃ code ∈ codes, ∃ n ∈ retryCodes, code = .number n then .again
  else .failed

def PlanStep.verdict (unpackb : Unpackb) (step : PlanStep) (answers : Answers) : Verdict :=
  match step.fatal with
  | none => .success
  | some fatal => judge fatal (answers.entries.map fun answer => unpackb.result answer.2)

/-- What is read during a call. -/
structure CallScript where
  cleared : List Yield
  rounds : List RetryRound

/-- The calls of a session with their events. -/
abbrev SessionTrace := List (RetryCall × List RetryEvent)

inductive PlanEnd where
  | completed (errorsOccured : Bool)
  | exited
  | raised
  deriving DecidableEq

/-- Behind a call: what is left of the plan and whether an error was noted, or how the tool ends;
    it does neither while the call waits. -/
def afterCall (unpackb : Unpackb) (step : PlanStep) (plan : List PlanStep)
    (errorsOccured : Bool) : RetryStatus → Except (Option PlanEnd) (List PlanStep × Bool)
  | .waiting _ => .error none
  | .finished .exited => .error (some .exited)
  | .finished .raised => .error (some .raised)
  | .finished (.returned answers) | .finished (.skipped answers) =>
      match step.verdict unpackb answers with
      | .success => .ok (plan, errorsOccured)
      | .failed => .ok (plan, true)
      | .again => .ok (step :: plan, errorsOccured)
      | .exit => .error (some .exited)
      | .raised => .error (some .raised)

/-- Call after call; there is no end as long as there is no script for the next one. -/
def runPlan (unpackb : Unpackb) : List PlanStep → Bool → List CallScript →
    SessionTrace × Option PlanEnd
  | [], errorsOccured, _ => ([], some (.completed errorsOccured))
  | _ :: _, _, [] => ([], none)
  | step :: plan, errorsOccured, script :: scripts =>
      let (events, status) := writeCommandRetry step.call script.cleared script.rounds
      match afterCall unpackb step plan errorsOccured status with
      | .error last => ([(step.call, events)], last)
      | .ok (plan, errorsOccured) =>
          let (trace, last) := runPlan unpackb plan errorsOccured scripts
          ((step.call, events) :: trace, last)

/-- The answer is one that the tool accepts. -/
def PlanStep.Accepts (unpackb : Unpackb) (step : PlanStep) (answer : List UInt8) : Prop :=
  step.fatal ≠ none → unpackb.result answer = .number 1

/-- The call returns only when there are as many answers as destinations. -/
def PlanStep.MustAnswer (step : PlanStep) : Prop :=
  step.call.retryForever = true ∨ step.call.errorExit = true

theorem judge_success {fatal : List Int} {codes : List Unpacked}
    (h : judge fatal codes = .success) : ∀ code ∈ codes, code = .number 1 := by
  unfold judge at h
  split_ifs at h with hraised hall
  exact hall

theorem PlanStep.accepts_of_success {unpackb : Unpackb} {step : PlanStep} {answers : Answers}
    (h : step.verdict unpackb answers = .success) {d : Nat} {answer : List UInt8}
    (hanswer : answers.lookup d = some answer) : step.Accepts unpackb answer := by
  intro hfatal
  obtain ⟨fatal, hfatal⟩ := Option.ne_none_iff_exists'.mp hfatal
  simp only [PlanStep.verdict, hfatal] at h
  exact judge_success h _ (List.mem_map.mpr ⟨⟨d, answer⟩, AList.mem_lookup_iff.mp hanswer, rfl⟩)

theorem judge_of_success {fatal : List Int} {codes : List Unpacked}
    (h : ∀ code ∈ codes, code = .number 1) : judge fatal codes = .success := by
  unfold judge
  rw [if_neg fun hraised => Unpacked.noConfusion (h _ hraised), if_pos h]

theorem PlanStep.verdict_of_accepts {unpackb : Unpackb} {step : PlanStep} {answers : Answers}
    (h : ∀ d answer, answers.lookup d = some answer → step.Accepts unpackb answer) :
    step.verdict unpackb answers = .success := by
  unfold PlanStep.verdict
  cases hfatal : step.fatal with
  | none => rfl
  | some fatal =>
      refine judge_of_success fun code hcode => ?_
      obtain ⟨⟨d, answer⟩, hmem, rfl⟩ := List.mem_map.mp hcode
      exact h d answer (AList.mem_lookup_iff.mpr hmem) (by simp [hfatal])

/-! ## The answers of a call -/

section Answers

variable {c : RetryCall}

/-- An answer that is kept was read. -/
theorem answer_read {rounds : List RetryRound} {result : RetryResult} {answers : Answers}
    (hanswers : result = .returned answers ∨ result = .skipped answers) {d : Nat}
    {answer : List UInt8} (hanswer : answers.lookup d = some answer) :
    ∀ {s : RetryState}, (retryLoop c s rounds).2 = .finished result →
      s.answers.lookup d = some answer ∨
        ∃ dst, RetryEvent.read (.datagram answer dst d) ∈ (retryLoop c s rounds).1 := by
  have hkept : ∀ {s : RetryState}, RetryResult.returned s.answers = result ∨
      RetryResult.skipped s.answers = result → s.answers = answers := by
    rintro s (rfl | rfl) <;> rcases hanswers with h | h <;> cases h <;> rfl
  induction rounds with
  | nil =>
      intro s h
      by_cases hopen : Unanswered c s.answers
      · simp [retryLoop, hopen] at h
      · simp only [retryLoop, if_neg hopen, RetryStatus.finished.injEq] at h
        exact .inl (hkept (.inl h) ▸ hanswer)
  | cons r rounds ih =>
      intro s h
      by_cases hopen : Unanswered c s.answers
      · have hstep := retryStep_spec c s r
        simp only [retryLoop, if_pos hopen] at h ⊢
        rcases hout : retryStep c s r with ⟨fs, t | last⟩
        · rw [hout] at h hstep
          rcases ih h with hbefore | ⟨dst, hmem⟩
          · cases hstep with
            | @answer data dst src hr =>
                by_cases heq : d = src
                · subst heq
                  rw [AList.lookup_insert, Option.some.injEq] at hbefore
                  exact .inr ⟨dst, List.mem_append_left _ (by simp [hbefore])⟩
                · rw [AList.lookup_insert_ne heq] at hbefore
                  exact .inl hbefore
            | ignore hr hnone => exact .inl hbefore
            | again hr hsome hlimit => exact .inl hbefore
          · exact .inr ⟨dst, List.mem_append_right _ hmem⟩
        · rw [hout] at h hstep
          obtain rfl : last = result := by simpa using h
          cases hstep with
          | limit hr hsome hlimit =>
              by_cases hexit : c.errorExit = true
              · simp [hexit] at hanswers
              · have heq : s.answers = answers := hkept (.inr (if_neg hexit).symm)
                exact .inl (heq ▸ hanswer)
          | raise hr hsome hnone => simp at hanswers
      · simp only [retryLoop, if_neg hopen, RetryStatus.finished.injEq] at h
        exact .inl (hkept (.inl h) ▸ hanswer)

/-- All transmissions of a call are for its destinations. -/
theorem transmit_subset {rounds : List RetryRound} {boards : List Nat} {frames : List Frame} :
    ∀ {s : RetryState}, RetryEvent.transmit boards frames ∈ (retryLoop c s rounds).1 →
      boards ⊆ c.destinations := by
  induction rounds with
  | nil => exact fun h => absurd h List.not_mem_nil
  | cons r rounds ih =>
      intro s h
      by_cases hopen : Unanswered c s.answers
      · have hstep := retryStep_spec c s r
        simp only [retryLoop, if_pos hopen] at h
        have hround : RetryEvent.transmit boards frames ∈ (retryStep c s r).1 →
            boards ⊆ c.destinations := by
          intro hmem
          generalize (retryStep c s r).1 = fs at hstep hmem
          generalize (retryStep c s r).2 = status at hstep
          cases hstep with
          | again hr hsome hlimit =>
              simp only [List.mem_cons, reduceCtorEq, List.mem_append, List.mem_map,
                and_false, exists_false, RetryEvent.transmit.injEq, List.not_mem_nil, or_false,
                false_or] at hmem
              rw [hmem.1]
              exact fun d hd => (RetryCall.mem_timedoutBoards.mp hd).1
          | _ => simp at hmem
        rcases hout : retryStep c s r with ⟨fs, t | last⟩
        · rw [hout] at h hround
          exact (List.mem_append.mp h).elim hround ih
        · rw [hout] at h hround
          exact hround h
      · simp [retryLoop, hopen] at h

end Answers

/-! ## The bus -/

/-- Boards: what they do with a command, their ID, the bytes that they answer with, and those that
    they send when a transmission was not complete. -/
structure BoardModel (ν α : Type) where
  exec : Node ν (List UInt8) α
  id : ν → Nat
  bytes : α → List UInt8
  Complaint : List UInt8 → Prop

/-- The boards, and the replies in the reception buffer with the IDs that the client reads off
    their frames. -/
structure Bus (ι ν : Type) where
  nodes : ι → ν
  received : List (Nat × List UInt8)

variable {ι ν α : Type}

/-- A board gets a transmission, or misses it. -/
def BoardModel.Hears (B : BoardModel ν α) (command : List UInt8) (boards : List Nat) (n : ν)
    (reply : Option α) (n' : ν) : Prop :=
  match reply with
  | none => n' = n
  | some a => B.id n ∈ boards ∧ B.exec n command a n'

/-- What the boards do with a transmission, and what the client can hear of them: replies, and
    complaints. -/
structure BoardModel.Transmission (B : BoardModel ν α) (command : List UInt8) (boards : List Nat)
    (b b' : Bus ι ν) (replies : ι → Option α) : Prop where
  hears : ∀ i, B.Hears command boards (b.nodes i) (replies i) (b'.nodes i)
  received : ∀ x ∈ b'.received, ∃ i, x.1 = B.id (b'.nodes i) % 128 ∧
    ((∃ a, replies i = some a ∧ x.2 = B.bytes a) ∨ B.Complaint x.2)

/-- What is between the client and the boards: what a transmission of a command does, and when the
    reader can time out. What is transmitted meets an empty reception buffer, behind its
    clearing. -/
structure Medium (ι ν : Type) where
  Transmits : List UInt8 → Bus ι ν → List Nat → List Frame → Bus ι ν → Prop
  TimesOut : Bus ι ν → Prop

/-- A bus that loses requests and replies. -/
def BoardModel.lossy (B : BoardModel ν α) : Medium ι ν where
  Transmits command b boards _ b' := ∃ replies, B.Transmission command boards b b' replies
  TimesOut _ := True

/-- An event of a call. -/
inductive BusStep (M : Medium ι ν) (command : List UInt8) :
    Bus ι ν → RetryEvent → Bus ι ν → Prop
  | timeout {b : Bus ι ν} (h : M.TimesOut b) : BusStep M command b (.read .timeout) b
  | datagram {b : Bus ι ν} {data dst : List UInt8} {src : Nat} (h : (src, data) ∈ b.received) :
      BusStep M command b (.read (.datagram data dst src))
        { b with received := b.received.erase (src, data) }
  | dropped (b : Bus ι ν) (y : Yield) : BusStep M command b (.dropped y) b
  | transmit {b b' : Bus ι ν} {boards : List Nat} {frames : List Frame}
      (h : M.Transmits command b boards frames b') :
      BusStep M command b (.transmit boards frames) b'

inductive BusRun (M : Medium ι ν) (command : List UInt8) :
    Bus ι ν → List RetryEvent → Bus ι ν → Prop
  | nil (b : Bus ι ν) : BusRun M command b [] b
  | cons {b m b' : Bus ι ν} {e : RetryEvent} {events : List RetryEvent}
      (h : BusStep M command b e m) (hrest : BusRun M command m events b') :
      BusRun M command b (e :: events) b'

/-- The calls of a session. What is in the reception buffer before a call is arbitrary. -/
inductive SessionRun (M : Medium ι ν) : (ι → ν) → SessionTrace → (ι → ν) → Prop
  | nil (nodes : ι → ν) : SessionRun M nodes [] nodes
  | cons {nodes nodes' : ι → ν} {b : Bus ι ν} {c : RetryCall} {events : List RetryEvent}
      {trace : SessionTrace} {received : List (Nat × List UInt8)}
      (h : BusRun M c.command ⟨nodes, received⟩ events b)
      (hrest : SessionRun M b.nodes trace nodes') :
      SessionRun M nodes ((c, events) :: trace) nodes'

/-- The command does not change the ID of a board. -/
def BoardModel.KeepsId (B : BoardModel ν α) (command : List UInt8) : Prop :=
  ∀ {n n' : ν} {a : α}, B.exec n command a n' → B.id n' = B.id n

theorem BoardModel.Hears.keepsId {B : BoardModel ν α} {command : List UInt8} {boards : List Nat}
    {n n' : ν} {reply : Option α} (h : B.Hears command boards n reply n')
    (hid : B.KeepsId command) : B.id n' = B.id n := by
  cases reply with
  | none => exact congrArg B.id h
  | some a => exact hid h.2

section Bus

variable {B : BoardModel ν α} {command : List UInt8} {b b' : Bus ι ν}
  {events : List RetryEvent}

/-- What each board executes during these events, and that nothing is heard but replies and
    complaints. -/
structure Explains (B : BoardModel ν α) (command : List UInt8) (b : Bus ι ν)
    (events : List RetryEvent) (b' : Bus ι ν) (replies : ι → List α) : Prop where
  repeats : ∀ i, Repeats B.exec command (b.nodes i) (replies i) (b'.nodes i)
  heard : ∀ data dst src, RetryEvent.read (.datagram data dst src) ∈ events →
    ¬ B.Complaint data → (src, data) ∈ b.received ∨
      ∃ i, ∃ a ∈ replies i, src = B.id (b.nodes i) % 128 ∧ data = B.bytes a
  targets : ∀ i, replies i ≠ [] →
    ∃ boards frames, RetryEvent.transmit boards frames ∈ events ∧ B.id (b.nodes i) ∈ boards

theorem Explains.silent {e : RetryEvent} {m : Bus ι ν} {replies : ι → List α}
    (h : Explains B command m events b' replies)
    (hnodes : m.nodes = b.nodes) (hreceived : m.received ⊆ b.received)
    (he : ∀ data dst src, e = .read (.datagram data dst src) → (src, data) ∈ b.received) :
    Explains B command b (e :: events) b' replies where
  repeats := hnodes ▸ h.repeats
  heard data dst src hmem hreply := by
    rcases List.mem_cons.mp hmem with heq | hmem
    · exact .inl (he data dst src heq.symm)
    · rw [← hnodes]
      exact (h.heard data dst src hmem hreply).imp_left fun hin => hreceived hin
  targets i hi := by
    obtain ⟨boards, frames, hmem, hid⟩ := h.targets i hi
    exact ⟨boards, frames, List.mem_cons_of_mem _ hmem, hnodes ▸ hid⟩

theorem BusRun.explains (hid : B.KeepsId command) (h : BusRun B.lossy command b events b') :
    ∃ replies, Explains B command b events b' replies := by
  induction h with
  | nil b => exact ⟨fun _ => [], fun i => .none _, by simp, by simp⟩
  | @cons b m b' e events hstep hrest ih =>
      obtain ⟨replies, hrest⟩ := ih
      cases hstep with
      | timeout => exact ⟨replies, hrest.silent rfl (fun _ => id) (by simp)⟩
      | @datagram data dst src hin =>
          refine ⟨replies, hrest.silent rfl List.erase_subset ?_⟩
          rintro data' dst' src' heq
          cases heq
          exact hin
      | dropped y => exact ⟨replies, hrest.silent rfl (fun _ => id) (by simp)⟩
      | @transmit _ boards frames h =>
          obtain ⟨first, hears, hreceived⟩ := h
          have hkeep : ∀ i, B.id (m.nodes i) = B.id (b.nodes i) := fun i => (hears i).keepsId hid
          refine ⟨fun i => (first i).toList ++ replies i, fun i => ?_, ?_, fun i hi => ?_⟩
          · have hi := hears i
            cases hfirst : first i with
            | none =>
                rw [hfirst] at hi
                exact (show m.nodes i = b.nodes i from hi) ▸ hrest.repeats i
            | some a =>
                rw [hfirst] at hi
                exact .more hi.2 (hrest.repeats i)
          · intro data dst src hmem hreply
            have hmem : RetryEvent.read (.datagram data dst src) ∈ events := by simpa using hmem
            right
            rcases hrest.heard data dst src hmem hreply with hin | ⟨i, a, ha, hsrc, hdata⟩
            · obtain ⟨i, hsrc, hsent⟩ := hreceived _ hin
              obtain ⟨a, hfirst, hdata⟩ := hsent.resolve_right hreply
              exact ⟨i, a, by simp [hfirst], hkeep i ▸ hsrc, hdata⟩
            · exact ⟨i, a, List.mem_append_right _ ha, hkeep i ▸ hsrc, hdata⟩
          · cases hfirst : first i with
            | none =>
                rw [hfirst] at hi
                obtain ⟨boards', frames', hmem, hid'⟩ := hrest.targets i hi
                exact ⟨boards', frames', List.mem_cons_of_mem _ hmem, hkeep i ▸ hid'⟩
            | some a =>
                have hi := hears i
                rw [hfirst] at hi
                exact ⟨boards, frames, List.mem_cons_self, hi.1⟩

/-- What is thrown away is of no concern to the boards. -/
theorem BusRun.of_dropped {M : Medium ι ν} {ys : List Yield}
    (h : BusRun M command b (ys.map .dropped ++ events) b') : BusRun M command b events b' := by
  induction ys with
  | nil => exact h
  | cons y ys ih =>
      cases h with
      | cons hstep hrest =>
          cases hstep
          exact ih hrest

/-- Nothing that was in the reception buffer before a transmission is read behind it. -/
theorem BusRun.fresh {boards : List Nat} {frames : List Frame}
    (h : BusRun B.lossy command b (.transmit boards frames :: events) b') :
    BusRun B.lossy command ⟨b.nodes, []⟩ (.transmit boards frames :: events) b' := by
  cases h with
  | cons hstep hrest =>
      cases hstep with
      | transmit h =>
          obtain ⟨replies, hears, hreceived⟩ := h
          exact .cons (.transmit ⟨replies, hears, hreceived⟩) hrest

/-! ## One call -/

/-- How a call returns. -/
def RetryResult.Answers (result : RetryResult) (answers : CanBootloader.Answers) : Prop :=
  result = .returned answers ∨ result = .skipped answers

/-- The boards during a call that returns: only destinations execute its command, and every answer
    that was read is a reply to it or a complaint. -/
structure CallView (B : BoardModel ν α) (c : RetryCall) (events : List RetryEvent)
    (nodes nodes' : ι → ν) (answers : Answers) (replies : ι → List α) : Prop where
  repeats : ∀ i, Repeats B.exec c.command (nodes i) (replies i) (nodes' i)
  targets : ∀ i, replies i ≠ [] → B.id (nodes i) ∈ c.destinations
  read : ∀ d answer, answers.lookup d = some answer →
    ∃ dst, RetryEvent.read (.datagram answer dst d) ∈ events
  answers : ∀ d answer, answers.lookup d = some answer → ¬ B.Complaint answer →
    ∃ i, ∃ a ∈ replies i, d = B.id (nodes i) % 128 ∧ answer = B.bytes a

theorem BusRun.callView {c : RetryCall} (hid : B.KeepsId c.command) {cleared : List Yield}
    {rounds : List RetryRound} {nodes : ι → ν} {received : List (Nat × List UInt8)}
    (h : BusRun B.lossy c.command ⟨nodes, received⟩ (writeCommandRetry c cleared rounds).1 b')
    {result : RetryResult} {answers : Answers} (hanswers : result.Answers answers)
    (hresult : (writeCommandRetry c cleared rounds).2 = .finished result) :
    ∃ replies, CallView B c (writeCommandRetry c cleared rounds).1 nodes b'.nodes answers
      replies := by
  cases hsend : writeCommand c.command c.destinations c.source with
  | none =>
      simp only [writeCommandRetry, hsend, RetryStatus.finished.injEq] at hresult
      rcases hanswers with rfl | rfl <;> cases hresult
  | some frames =>
      simp only [writeCommandRetry, hsend] at h hresult ⊢
      obtain ⟨replies, hexplains⟩ := h.of_dropped.fresh.explains hid
      have hread : ∀ d answer, answers.lookup d = some answer → ∃ dst, RetryEvent.read
          (.datagram answer dst d) ∈ (retryLoop c ⟨∅, 0⟩ rounds).1 := by
        intro d answer hanswer
        exact (answer_read hanswers hanswer hresult).resolve_left (by simp)
      refine ⟨replies, hexplains.repeats, fun i hi => ?_, fun d answer hanswer => ?_,
        fun d answer hanswer hreply => ?_⟩
      · obtain ⟨boards, frames', hmem, hid⟩ := hexplains.targets i hi
        rcases List.mem_cons.mp hmem with heq | hmem
        · rw [RetryEvent.transmit.injEq] at heq
          exact heq.1 ▸ hid
        · exact transmit_subset hmem hid
      · obtain ⟨dst, hmem⟩ := hread d answer hanswer
        exact ⟨dst, List.mem_append_right _ (List.mem_cons_of_mem _ hmem)⟩
      · obtain ⟨dst, hmem⟩ := hread d answer hanswer
        have hheard := hexplains.heard answer dst d (List.mem_cons_of_mem _ hmem) hreply
        exact hheard.resolve_left List.not_mem_nil

/-- How a call that must be answered returns: with as many answers as destinations. -/
theorem PlanStep.MustAnswer.returned {step : PlanStep} (hmust : step.MustAnswer)
    {cleared : List Yield} {rounds : List RetryRound} {result : RetryResult} {answers : Answers}
    (hanswers : result.Answers answers)
    (hresult : (writeCommandRetry step.call cleared rounds).2 = .finished result) :
    ¬ Unanswered step.call answers := by
  by_cases hsend : (writeCommand step.call.command step.call.destinations
      step.call.source).isSome = true
  · obtain ⟨t, -, hend⟩ := retry_inv hsend cleared rounds
    rw [hresult] at hend
    generalize hstatus : RetryStatus.finished result = status at hend
    cases hend with
    | waiting h => cases hstatus
    | returned h =>
        cases hstatus
        rcases hanswers with hanswers | hanswers <;> cases hanswers
        exact h
    | limit h =>
        cases hstatus
        rcases hmust with hforever | hexit
        · exact absurd h.1 (by simp [hforever])
        · simp [RetryResult.Answers, hexit] at hanswers
    | raised => cases hstatus; simp [RetryResult.Answers] at hanswers
  · rw [writeCommandRetry_raised hsend] at hresult
    cases hresult
    simp [RetryResult.Answers] at hanswers

/-- As many answers as destinations, and none of them a complaint: nobody is missing. -/
theorem CallView.mem_answers {c : RetryCall} {nodes nodes' : ι → ν} {answers : Answers}
    {replies : ι → List α} (h : CallView B c events nodes nodes' answers replies)
    (hids : ∀ i, B.id (nodes i) < 128) (hall : ¬ Unanswered c answers)
    (hreplies : ∀ d answer, answers.lookup d = some answer → ¬ B.Complaint answer) {d : Nat}
    (hd : d ∈ c.destinations) : d ∈ answers := by
  have hsub : answers.keys ⊆ c.destinations := by
    intro d hd
    obtain ⟨answer, hanswer⟩ := Option.isSome_iff_exists.mp
      (AList.lookup_isSome.mpr (AList.mem_keys.mpr hd))
    obtain ⟨i, a, ha, rfl, -⟩ := h.answers d answer hanswer (hreplies d answer hanswer)
    rw [Nat.mod_eq_of_lt (hids i)]
    exact h.targets i (List.ne_nil_of_mem ha)
  have hperm := (answers.keys_nodup.subperm hsub).perm_of_length_le (Nat.le_of_not_lt hall)
  exact AList.mem_keys.mp (hperm.mem_iff.mpr hd)

/-! ## Sessions -/

/-- The answers to the step are looked at, or no complaint was among them. -/
def PlanStep.Undisturbed (B : BoardModel ν α) (trace : SessionTrace) (step : PlanStep) : Prop :=
  step.fatal = none → ∀ events, (step.call, events) ∈ trace →
    ∀ data dst src, RetryEvent.read (.datagram data dst src) ∈ events → ¬ B.Complaint data

/-- What the replies of a board to a step show: the step is for the board if there are any, and if
    it must be answered one of them is a reply that the client accepts. -/
structure PlanStep.Served (B : BoardModel ν α) (unpackb : Unpackb) (trace : SessionTrace)
    (id : Nat) (step : PlanStep) (replies : List α) : Prop where
  targets : replies ≠ [] → id ∈ step.call.destinations
  answered : step.MustAnswer → step.Undisturbed B trace → id ∈ step.call.destinations →
    ∃ a ∈ replies, step.Accepts unpackb (B.bytes a)

theorem PlanStep.Served.append_left {unpackb : Unpackb} {trace : SessionTrace} {id : Nat}
    {step : PlanStep} {replies as : List α} (h : step.Served B unpackb trace id replies)
    (has : as ≠ [] → id ∈ step.call.destinations) :
    step.Served B unpackb trace id (as ++ replies) where
  targets hne := by
    by_cases hnil : as = []
    · exact h.targets (by simpa [hnil] using hne)
    · exact has hnil
  answered hmust hquiet hid := by
    obtain ⟨a, ha, haccept⟩ := h.answered hmust hquiet hid
    exact ⟨a, List.mem_append_right _ ha, haccept⟩

/-- In a longer trace. -/
theorem PlanStep.Served.of_subset {unpackb : Unpackb} {trace trace' : SessionTrace} {id : Nat}
    {step : PlanStep} {replies : List α} (h : step.Served B unpackb trace id replies)
    (hsub : trace ⊆ trace') : step.Served B unpackb trace' id replies where
  targets := h.targets
  answered hmust hquiet := h.answered hmust fun hnone events hmem =>
    hquiet hnone events (hsub hmem)

/-- A board in a session: it executes the commands of the plan in order, each any number of
    times. -/
def Follows (B : BoardModel ν α) (unpackb : Unpackb) (trace : SessionTrace)
    (plan : List PlanStep) (n n' : ν) : Prop :=
  ∃ replies, Rounds B.exec (plan.map fun step => step.call.command) n replies n' ∧
    List.Forall₂ (PlanStep.Served B unpackb trace (B.id n)) plan replies

theorem Follows.of_subset {unpackb : Unpackb} {trace trace' : SessionTrace}
    {plan : List PlanStep} {n n' : ν} (h : Follows B unpackb trace plan n n')
    (hsub : trace ⊆ trace') : Follows B unpackb trace' plan n n' := by
  obtain ⟨replies, hrounds, hserved⟩ := h
  exact ⟨replies, hrounds, hserved.imp fun _ _ hstep => hstep.of_subset hsub⟩

/-- Calls whose answers are not accepted put nothing in the way. -/
theorem Follows.again {unpackb : Unpackb} {trace : SessionTrace} {step : PlanStep}
    {plan : List PlanStep} {n m n' : ν} {as : List α} (hid : B.id m = B.id n)
    (h : Repeats B.exec step.call.command n as m)
    (has : as ≠ [] → B.id n ∈ step.call.destinations)
    (hrest : Follows B unpackb trace (step :: plan) m n') :
    Follows B unpackb trace (step :: plan) n n' := by
  obtain ⟨replies, hrounds, hserved⟩ := hrest
  rw [hid] at hserved
  cases hserved with
  | cons hfirst hserved =>
      exact ⟨_, Rounds.again h hrounds, .cons (hfirst.append_left has) hserved⟩

theorem Follows.cons {unpackb : Unpackb} {trace : SessionTrace} {step : PlanStep}
    {plan : List PlanStep} {n m n' : ν} {as : List α} (hid : B.id m = B.id n)
    (h : Repeats B.exec step.call.command n as m)
    (hserved : step.Served B unpackb trace (B.id n) as)
    (hrest : Follows B unpackb trace plan m n') : Follows B unpackb trace (step :: plan) n n' := by
  obtain ⟨replies, hrounds, hserveds⟩ := hrest
  exact ⟨as :: replies, .cons h hrounds, .cons hserved (hid ▸ hserveds)⟩

/-- A board that no step is for stays as it was. -/
theorem Follows.untouched {unpackb : Unpackb} {trace : SessionTrace} {plan : List PlanStep}
    {n n' : ν} (h : Follows B unpackb trace plan n n')
    (hnot : ∀ step ∈ plan, B.id n ∉ step.call.destinations) : n' = n := by
  obtain ⟨replies, hrounds, hserved⟩ := h
  generalize B.id n = id at hserved hnot
  induction plan generalizing n replies with
  | nil => cases hserved; cases hrounds; rfl
  | cons step plan ih =>
      obtain ⟨hfirst, hplan⟩ := List.forall_mem_cons.mp hnot
      cases hserved with
      | @cons _ as _ rest hstep hserved =>
          cases hrounds with
          | cons hrun hrest =>
              obtain rfl : as = [] := not_imp_comm.mp hstep.targets hfirst
              cases hrun
              exact ih rest hrest hserved hplan

theorem Repeats.keepsId (hid : B.KeepsId command) {n n' : ν} {replies : List α}
    (h : Repeats B.exec command n replies n') : B.id n' = B.id n := by
  induction h with
  | none => rfl
  | more hexec _ ih => rw [ih, hid hexec]

/-- A session goes on behind a call that returned: with the next step, or with this one again. -/
theorem afterCall_ok {unpackb : Unpackb} {step : PlanStep} {plan left : List PlanStep}
    {errorsOccured errors : Bool} {status : RetryStatus}
    (h : afterCall unpackb step plan errorsOccured status = .ok (left, errors)) :
    ∃ result answers, status = .finished result ∧ result.Answers answers ∧
      ((step.verdict unpackb answers = .success ∧ left = plan ∧ errors = errorsOccured) ∨
        (left = plan ∧ errors = true) ∨ (left = step :: plan ∧ errors = errorsOccured)) := by
  have hverdict : ∀ answers, (match step.verdict unpackb answers with
      | .success => .ok (plan, errorsOccured)
      | .failed => .ok (plan, true)
      | .again => .ok (step :: plan, errorsOccured)
      | .exit => .error (some .exited)
      | .raised => .error (some .raised) : Except (Option PlanEnd) (List PlanStep × Bool)) =
        .ok (left, errors) →
      (step.verdict unpackb answers = .success ∧ left = plan ∧ errors = errorsOccured) ∨
        (left = plan ∧ errors = true) ∨ (left = step :: plan ∧ errors = errorsOccured) := by
    intro answers h
    cases hcase : step.verdict unpackb answers <;> rw [hcase] at h <;> cases h <;> simp
  match status with
  | .finished (.returned answers) => exact ⟨_, answers, rfl, .inl rfl, hverdict answers h⟩
  | .finished (.skipped answers) => exact ⟨_, answers, rfl, .inr rfl, hverdict answers h⟩
  | .waiting _ | .finished .exited | .finished .raised => cases h

/-- A session that gets to its end has got behind its first call. -/
theorem runPlan_completed {unpackb : Unpackb} {step : PlanStep} {plan : List PlanStep}
    {errorsOccured errors : Bool} {script : CallScript} {scripts : List CallScript}
    {trace : SessionTrace}
    (h : runPlan unpackb (step :: plan) errorsOccured (script :: scripts) =
      (trace, some (.completed errors))) :
    ∃ left noted rest, trace =
        (step.call, (writeCommandRetry step.call script.cleared script.rounds).1) :: rest ∧
      afterCall unpackb step plan errorsOccured
        (writeCommandRetry step.call script.cleared script.rounds).2 = .ok (left, noted) ∧
      runPlan unpackb left noted scripts = (rest, some (.completed errors)) := by
  rw [runPlan] at h
  cases hnext : afterCall unpackb step plan errorsOccured
      (writeCommandRetry step.call script.cleared script.rounds).2 with
  | error last =>
      simp only [hnext, Prod.mk.injEq] at h
      obtain ⟨-, rfl⟩ := h
      match hstatus : (writeCommandRetry step.call script.cleared script.rounds).2 with
      | .finished (.returned answers) | .finished (.skipped answers) =>
          rw [hstatus] at hnext
          simp only [afterCall] at hnext
          split at hnext <;> cases hnext
      | .waiting _ | .finished .exited | .finished .raised => rw [hstatus] at hnext; cases hnext
  | ok next =>
      simp only [hnext, Prod.mk.injEq] at h
      exact ⟨next.1, next.2, _, h.1.symm, rfl, Prod.ext rfl h.2⟩

/-- An error that was noted is not forgotten. -/
theorem runPlan_errors {unpackb : Unpackb} {scripts : List CallScript} :
    ∀ {plan : List PlanStep} {trace : SessionTrace},
      runPlan unpackb plan true scripts ≠ (trace, some (.completed false)) := by
  induction scripts with
  | nil => rintro (_ | _) trace <;> simp [runPlan]
  | cons script scripts ih =>
      rintro (_ | ⟨step, plan⟩) trace h
      · simp [runPlan] at h
      · obtain ⟨left, noted, rest, -, hnext, hrest⟩ := runPlan_completed h
        obtain ⟨_, _, -, -, hleft⟩ := afterCall_ok hnext
        obtain rfl : noted = true := by
          rcases hleft with ⟨-, -, h⟩ | ⟨-, h⟩ | ⟨-, h⟩ <;> exact h
        exact ih hrest

/-- What a call that was a success shows of a board. -/
theorem CallView.served {unpackb : Unpackb} {trace : SessionTrace} {step : PlanStep}
    {answers : Answers} {nodes nodes' : ι → ν} {replies : ι → List α}
    (h : CallView B step.call events nodes nodes' answers replies)
    (hcomplaint : ∀ {data}, B.Complaint data → unpackb.result data ≠ .number 1)
    (hids : ∀ i, B.id (nodes i) < 128) (hinj : Function.Injective (B.id ∘ nodes))
    (hall : step.MustAnswer → ¬ Unanswered step.call answers)
    (hverdict : step.verdict unpackb answers = .success)
    (hmem : (step.call, events) ∈ trace) (i : ι) :
    step.Served B unpackb trace (B.id (nodes i)) (replies i) where
  targets := h.targets i
  answered hmust hquiet hid := by
    have hreplies : ∀ d answer, answers.lookup d = some answer → ¬ B.Complaint answer := by
      intro d answer hanswer hcomplains
      by_cases hfatal : step.fatal = none
      · obtain ⟨dst, hread⟩ := h.read d answer hanswer
        exact hquiet hfatal events hmem answer dst d hread hcomplains
      · exact hcomplaint hcomplains (PlanStep.accepts_of_success hverdict hanswer hfatal)
    obtain ⟨answer, hanswer⟩ := Option.isSome_iff_exists.mp (AList.lookup_isSome.mpr
      (h.mem_answers hids (hall hmust) hreplies hid))
    obtain ⟨j, a, ha, hij, rfl⟩ := h.answers _ _ hanswer (hreplies _ _ hanswer)
    rw [Nat.mod_eq_of_lt (hids j)] at hij
    obtain rfl : i = j := hinj hij
    exact ⟨a, ha, PlanStep.accepts_of_success hverdict hanswer⟩

/-- A session that ends without errors is, for every board, the plan: the board executes the
    commands in their order, each any number of times, and behind a command that must be answered
    there is an accepted reply of each destination. Boards have distinct IDs of 7 bits. -/
theorem plan_refines {unpackb : Unpackb}
    (hcomplaint : ∀ {data}, B.Complaint data → unpackb.result data ≠ .number 1)
    {scripts : List CallScript} :
    ∀ {plan : List PlanStep} {trace : SessionTrace} {nodes nodes' : ι → ν},
      (∀ step ∈ plan, B.KeepsId step.call.command) → (∀ i, B.id (nodes i) < 128) →
      Function.Injective (B.id ∘ nodes) →
      runPlan unpackb plan false scripts = (trace, some (.completed false)) →
      SessionRun B.lossy nodes trace nodes' →
      ∀ i, Follows B unpackb trace plan (nodes i) (nodes' i) := by
  have hnil : ∀ {trace : SessionTrace} {nodes nodes' : ι → ν} (scripts : List CallScript),
      runPlan unpackb [] false scripts = (trace, some (.completed false)) →
      SessionRun B.lossy nodes trace nodes' →
      ∀ i, Follows B unpackb trace [] (nodes i) (nodes' i) := by
    intro trace nodes nodes' scripts hrun hbus i
    obtain rfl : trace = [] := by
      cases scripts <;> exact (congrArg Prod.fst hrun).symm
    cases hbus
    exact ⟨[], .nil _, .nil⟩
  induction scripts with
  | nil =>
      rintro (_ | ⟨step, plan⟩) trace nodes nodes' - - - hrun hbus i
      · exact hnil [] hrun hbus i
      · simp [runPlan] at hrun
  | cons script scripts ih =>
      rintro (_ | ⟨step, plan⟩) trace nodes nodes' hkeep hids hinj hrun hbus i
      · exact hnil _ hrun hbus i
      obtain ⟨left, noted, rest, rfl, hnext, hrun⟩ := runPlan_completed hrun
      obtain ⟨result, answers, hresult, hanswers, hleft⟩ := afterCall_ok hnext
      obtain ⟨hstep, hplan⟩ := List.forall_mem_cons.mp hkeep
      have hsub := List.subset_cons_self
        (step.call, (writeCommandRetry step.call script.cleared script.rounds).1) rest
      cases hbus with
      | @cons _ _ b _ _ _ received hbus hrest =>
          obtain ⟨replies, hview⟩ := BusRun.callView hstep hbus hanswers hresult
          have hid : ∀ j, B.id (b.nodes j) = B.id (nodes j) :=
            fun j => Repeats.keepsId hstep (hview.repeats j)
          have hinj' : Function.Injective (B.id ∘ b.nodes) := by
            rwa [show B.id ∘ b.nodes = B.id ∘ nodes from funext hid]
          have hids' : ∀ j, B.id (b.nodes j) < 128 := fun j => (hid j).trans_lt (hids j)
          rcases hleft with ⟨hverdict, rfl, rfl⟩ | ⟨rfl, rfl⟩ | ⟨rfl, rfl⟩
          · have hserved := hview.served hcomplaint hids hinj
              (fun hmust => hmust.returned hanswers hresult) hverdict
              (List.mem_cons_self : _ ∈ _ :: rest) i
            exact .cons (hid i) (hview.repeats i) hserved
              ((ih hplan hids' hinj' hrun hrest i).of_subset hsub)
          · exact absurd hrun runPlan_errors
          · exact .again (hid i) (hview.repeats i) (hview.targets i)
              ((ih hkeep hids' hinj' hrun hrest i).of_subset hsub)

end Bus

/-! ## Answered calls -/

/-- A call with one destination, whose answer is read at once. -/
theorem writeCommandRetry_answered {c : RetryCall} {d : Nat} {bytes : List UInt8}
    {frames : List Frame} (hdest : c.destinations = [d])
    (hframes : writeCommand c.command [d] c.source = some frames) :
    writeCommandRetry c [] [⟨.datagram bytes [] d, []⟩] =
      ([.transmit [d] frames, .read (.datagram bytes [] d)],
        .finished (.returned (AList.insert d bytes ∅))) := by
  simp [writeCommandRetry, hdest, hframes, retryLoop, retryStep, Unanswered]

theorem PlanStep.verdict_answered {unpackb : Unpackb} {step : PlanStep} {bytes : List UInt8}
    (d : Nat) (haccept : step.Accepts unpackb bytes) :
    step.verdict unpackb (AList.insert d bytes ∅) = .success := by
  refine PlanStep.verdict_of_accepts fun d' answer hanswer => ?_
  by_cases heq : d' = d
  · subst heq
    rw [AList.lookup_insert, Option.some.injEq] at hanswer
    exact hanswer ▸ haccept
  · rw [AList.lookup_insert_ne heq] at hanswer
    simp at hanswer

/-- Its events on a bus on which the answer is heard. -/
theorem BusRun.answered {M : Medium ι ν} {command : List UInt8} {nodes : ι → ν}
    {d : Nat} {bytes : List UInt8} {frames : List Frame} {b : Bus ι ν}
    (h : M.Transmits command ⟨nodes, []⟩ [d] frames b) (hheard : (d, bytes) ∈ b.received) :
    BusRun M command ⟨nodes, []⟩ [.transmit [d] frames, .read (.datagram bytes [] d)]
      { b with received := b.received.erase (d, bytes) } :=
  .cons (.transmit h) (.cons (.datagram hheard) (.nil _))

/-! ## Media -/

/-- The frames of a transmission are those of the command, and it is for somebody. -/
def Transmits (c : RetryCall) (events : List RetryEvent) : Prop :=
  ∀ boards frames, RetryEvent.transmit boards frames ∈ events →
    writeCommand c.command boards c.source = some frames ∧ boards ≠ []

theorem retryStep_transmits (c : RetryCall) (s : RetryState) (r : RetryRound) :
    Transmits c (retryStep c s r).1 := by
  intro boards frames hmem
  unfold retryStep at hmem
  cases hr : r.received with
  | datagram data dst src => simp [hr] at hmem
  | timeout =>
      simp only [hr] at hmem
      split at hmem
      · rename_i hboards
        split at hmem
        · simp at hmem
        · split at hmem
          · simp at hmem
          · rename_i hsend
            simp only [List.mem_cons, reduceCtorEq, List.mem_append, List.mem_map, and_false,
              exists_false, RetryEvent.transmit.injEq, List.not_mem_nil, or_false,
              false_or] at hmem
            obtain ⟨rfl, rfl⟩ := hmem
            exact ⟨hsend, List.ne_nil_of_length_pos hboards⟩
      · simp at hmem

theorem retryLoop_transmits (c : RetryCall) (rounds : List RetryRound) :
    ∀ s : RetryState, Transmits c (retryLoop c s rounds).1 := by
  induction rounds with
  | nil => exact fun s _ _ h => absurd h List.not_mem_nil
  | cons r rounds ih =>
      intro s boards frames hmem
      by_cases hopen : Unanswered c s.answers
      · have hround := retryStep_transmits c s r boards frames
        simp only [retryLoop, if_pos hopen] at hmem
        rcases hout : retryStep c s r with ⟨events, t | last⟩
        · rw [hout] at hmem hround
          exact (List.mem_append.mp hmem).elim hround (ih t boards frames)
        · rw [hout] at hmem hround
          exact hround hmem
      · simp [retryLoop, if_neg hopen] at hmem

theorem writeCommandRetry_transmits {c : RetryCall} (hdest : c.destinations ≠ [])
    (cleared : List Yield) (rounds : List RetryRound) :
    Transmits c (writeCommandRetry c cleared rounds).1 := by
  intro boards frames hmem
  cases hsend : writeCommand c.command c.destinations c.source with
  | none => simp [writeCommandRetry, hsend] at hmem
  | some first =>
      simp only [writeCommandRetry, hsend, List.mem_append, List.mem_map, reduceCtorEq, and_false,
        exists_false, List.mem_cons, RetryEvent.transmit.injEq, false_or] at hmem
      rcases hmem with ⟨rfl, rfl⟩ | hmem
      · exact ⟨hsend, hdest⟩
      · exact retryLoop_transmits c rounds _ boards frames hmem

/-- The calls of a session are those of its plan, and what they transmit is their command. -/
theorem runPlan_transmits {unpackb : Unpackb} {scripts : List CallScript} :
    ∀ {plan : List PlanStep} {errorsOccured : Bool} {trace : SessionTrace} {last : Option PlanEnd},
      runPlan unpackb plan errorsOccured scripts = (trace, last) →
      (∀ step ∈ plan, step.call.destinations ≠ []) →
      ∀ c events, (c, events) ∈ trace →
        (∃ step ∈ plan, step.call = c) ∧ Transmits c events := by
  induction scripts with
  | nil =>
      rintro (_ | ⟨step, plan⟩) errorsOccured trace last hrun - c events hmem
      all_goals
        obtain ⟨rfl, -⟩ := Prod.mk.inj hrun
        exact absurd hmem List.not_mem_nil
  | cons script scripts ih =>
      rintro (_ | ⟨step, plan⟩) errorsOccured trace last hrun hdest c events hmem
      · obtain ⟨rfl, -⟩ := Prod.mk.inj hrun
        exact absurd hmem List.not_mem_nil
      have hfirst := writeCommandRetry_transmits (hdest step List.mem_cons_self) script.cleared
        script.rounds
      rw [runPlan] at hrun
      rcases hnext : afterCall unpackb step plan errorsOccured
          (writeCommandRetry step.call script.cleared script.rounds).2 with stop | ⟨left, noted⟩
      · simp only [hnext, Prod.mk.injEq] at hrun
        rw [← hrun.1] at hmem
        obtain ⟨rfl, rfl⟩ := Prod.mk.inj (List.mem_singleton.mp hmem)
        exact ⟨⟨step, List.mem_cons_self, rfl⟩, hfirst⟩
      · simp only [hnext, Prod.mk.injEq] at hrun
        rw [← hrun.1] at hmem
        rcases List.mem_cons.mp hmem with heq | hmem
        · obtain ⟨rfl, rfl⟩ := Prod.mk.inj heq
          exact ⟨⟨step, List.mem_cons_self, rfl⟩, hfirst⟩
        -- what is left of the plan is the rest of it, or the plan itself
        · have hsub : left ⊆ step :: plan := by
            obtain ⟨_, _, -, -, ⟨-, rfl, -⟩ | ⟨rfl, -⟩ | ⟨rfl, -⟩⟩ := afterCall_ok hnext
            · exact List.subset_cons_self _ _
            · exact List.subset_cons_self _ _
            · exact List.Subset.refl _
          obtain ⟨⟨step', hstep', hcall⟩, htransmits⟩ :=
            ih (Prod.eta _) (fun s hs => hdest s (hsub hs)) c events hmem
          exact ⟨⟨step', hsub hstep', hcall⟩, htransmits⟩

/-- The same bus with other boards. -/
def Bus.map {ν' : Type} (f : ν → ν') (b : Bus ι ν) : Bus ι ν' := ⟨fun i => f (b.nodes i), b.received⟩

/-- What one medium makes of this call, with boards of which `I` holds, the other one does too. -/
structure Medium.Simulates {ν' : Type} (M : Medium ι ν) (N : Medium ι ν') (f : ν → ν')
    (I : (ι → ν) → Prop) (c : RetryCall) : Prop where
  transmit : ∀ {b b' : Bus ι ν} {boards : List Nat} {frames : List Frame},
    writeCommand c.command boards c.source = some frames → boards ≠ [] → I b.nodes →
    M.Transmits c.command b boards frames b' →
      I b'.nodes ∧ N.Transmits c.command (b.map f) boards frames (b'.map f)
  timesOut : ∀ {b : Bus ι ν}, M.TimesOut b → N.TimesOut (b.map f)

section Simulates

variable {ν' : Type} {M : Medium ι ν} {N : Medium ι ν'} {f : ν → ν'} {I : (ι → ν) → Prop}

theorem BusRun.simulates {c : RetryCall} (hsim : M.Simulates N f I c) {b b' : Bus ι ν}
    {events : List RetryEvent} (h : BusRun M c.command b events b') (htransmits : Transmits c events)
    (hI : I b.nodes) : BusRun N c.command (b.map f) events (b'.map f) ∧ I b'.nodes := by
  induction h with
  | nil b => exact ⟨.nil _, hI⟩
  | @cons b m b' e events hstep hrest ih =>
      have hrest' : Transmits c events := fun boards frames hmem =>
        htransmits boards frames (List.mem_cons_of_mem _ hmem)
      have hnext : I m.nodes ∧ BusStep N c.command (b.map f) e (m.map f) := by
        cases hstep with
        | timeout h => exact ⟨hI, .timeout (hsim.timesOut h)⟩
        | datagram h => exact ⟨hI, .datagram (b := b.map f) h⟩
        | dropped y => exact ⟨hI, .dropped _ y⟩
        | transmit h =>
            obtain ⟨hsend, hboards⟩ := htransmits _ _ List.mem_cons_self
            obtain ⟨hm, htransmit⟩ := hsim.transmit hsend hboards hI h
            exact ⟨hm, .transmit htransmit⟩
      obtain ⟨hrun, hb'⟩ := ih hrest' hnext.1
      exact ⟨.cons hnext.2 hrun, hb'⟩

theorem SessionRun.simulates {nodes nodes' : ι → ν} {trace : SessionTrace}
    (h : SessionRun M nodes trace nodes')
    (hcalls : ∀ c events, (c, events) ∈ trace → M.Simulates N f I c ∧ Transmits c events)
    (hI : I nodes) : SessionRun N (fun i => f (nodes i)) trace fun i => f (nodes' i) := by
  induction h with
  | nil nodes => exact .nil _
  | @cons nodes nodes' b c events trace received hcall hrest ih =>
      obtain ⟨hsim, htransmits⟩ := hcalls c events List.mem_cons_self
      obtain ⟨hrun, hb⟩ := hcall.simulates hsim htransmits hI
      exact .cons hrun
        (ih (fun c' events' hmem => hcalls c' events' (List.mem_cons_of_mem _ hmem)) hb)

/-- The session of a plan. -/
theorem SessionRun.simulates_plan {unpackb : Unpackb} {plan : List PlanStep} {errorsOccured : Bool}
    {scripts : List CallScript} {trace : SessionTrace} {last : Option PlanEnd}
    {nodes nodes' : ι → ν} (h : SessionRun M nodes trace nodes')
    (hrun : runPlan unpackb plan errorsOccured scripts = (trace, last))
    (hplan : ∀ step ∈ plan, step.call.destinations ≠ [] ∧ M.Simulates N f I step.call)
    (hI : I nodes) : SessionRun N (fun i => f (nodes i)) trace fun i => f (nodes' i) := by
  refine h.simulates (fun c events hmem => ?_) hI
  obtain ⟨⟨step, hstep, rfl⟩, htransmits⟩ := runPlan_transmits hrun
    (fun step hstep => (hplan step hstep).1) c events hmem
  exact ⟨(hplan step hstep).2, htransmits⟩

end Simulates

end CanBootloader
