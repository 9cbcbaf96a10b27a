/-
  Sessions on a bus that loses nothing.

  Every board that a transmission is for executes its command and is heard, nobody complains, and
  the reader of the client times out only when it has read all that there is. Then no call is
  repeated: it waits, or returns the answers of its destinations (`lossless_call`).

  `plan_progresses`: a tool whose answers are accepted as long as each board executes its commands
  once, in order (`Progresses`), does not fail.
-/
import CanBootloader.Client.Session

namespace CanBootloader

open Lib AtLeastOnce

variable {ι ν α : Type}

/-! ## The bus -/

/-- A transmission that all its boards execute, and whose replies are all heard. -/
structure BoardModel.Delivery (B : BoardModel ν α) (command : List UInt8) (boards : List Nat)
    (b b' : Bus ι ν) (replies : ι → Option α) : Prop where
  hears : ∀ i, B.Hears command boards (b.nodes i) (replies i) (b'.nodes i)
  executes : ∀ i, B.id (b.nodes i) ∈ boards → replies i ≠ none
  heard : ∀ i a, replies i = some a → (B.id (b'.nodes i), B.bytes a) ∈ b'.received
  only : ∀ x ∈ b'.received, ∃ i a, replies i = some a ∧ x = (B.id (b'.nodes i), B.bytes a)

/-- A bus that loses nothing. -/
def BoardModel.lossless (B : BoardModel ν α) : Medium ι ν where
  Transmits command b boards _ b' := ∃ replies, B.Delivery command boards b b' replies
  TimesOut b := b.received = []

/-! ## Calls -/

section Calls

variable {B : BoardModel ν α} {c : RetryCall} {nodes : ι → ν} {replies : ι → Option α}

/-- Behind the transmission of a call: each reply is in the reception buffer or among the answers,
    and nothing else is. -/
structure Hearing (B : BoardModel ν α) (nodes : ι → ν) (replies : ι → Option α) (answers : Answers)
    (b : Bus ι ν) : Prop where
  same : b.nodes = nodes
  heard : ∀ i a, replies i = some a →
    B.id (nodes i) ∈ answers ∨ (B.id (nodes i), B.bytes a) ∈ b.received
  only : ∀ x ∈ b.received, ∃ i a, replies i = some a ∧ x = (B.id (nodes i), B.bytes a)
  answers : ∀ d answer, answers.lookup d = some answer →
    ∃ i a, replies i = some a ∧ d = B.id (nodes i) ∧ answer = B.bytes a

theorem Hearing.read {answers : Answers} {b : Bus ι ν} (h : Hearing B nodes replies answers b)
    {src : Nat} {data : List UInt8} (hmem : (src, data) ∈ b.received) :
    Hearing B nodes replies (answers.insert src data)
      { b with received := b.received.erase (src, data) } where
  same := h.same
  heard i a ha := by
    rcases h.heard i a ha with hanswer | hin
    · exact .inl ((AList.mem_insert _).mpr (.inr hanswer))
    · by_cases heq : (B.id (nodes i), B.bytes a) = (src, data)
      · exact .inl ((AList.mem_insert _).mpr (.inl (Prod.mk.inj heq).1))
      · exact .inr ((List.mem_erase_of_ne heq).mpr hin)
  only x hx := h.only x (List.mem_of_mem_erase hx)
  answers d answer hanswer := by
    by_cases heq : d = src
    · subst heq
      rw [AList.lookup_insert, Option.some.injEq] at hanswer
      obtain ⟨i, a, ha, hpair⟩ := h.only _ hmem
      obtain ⟨hid, hbytes⟩ := Prod.mk.inj hpair
      exact ⟨i, a, ha, hid, hanswer ▸ hbytes⟩
    · rw [AList.lookup_insert_ne heq] at hanswer
      exact h.answers d answer hanswer

/-- When the reader times out, nobody is missing. -/
theorem Hearing.timeout {answers : Answers} {b : Bus ι ν} (h : Hearing B nodes replies answers b)
    (hreplies : ∀ d ∈ c.destinations, ∃ i a, replies i = some a ∧ d = B.id (nodes i))
    (hempty : b.received = []) : c.timedoutBoards answers = [] := by
  refine List.eq_nil_iff_forall_not_mem.mpr fun d hd => ?_
  obtain ⟨hdest, hmissing⟩ := RetryCall.mem_timedoutBoards.mp hd
  obtain ⟨i, a, ha, rfl⟩ := hreplies d hdest
  rcases h.heard i a ha with hanswer | hin
  · exact hmissing hanswer
  · rw [hempty] at hin
    exact absurd hin List.not_mem_nil

/-- What is read during these events are replies. -/
def ReadsReplies (B : BoardModel ν α) (replies : ι → Option α) (events : List RetryEvent) : Prop :=
  ∀ data dst src, RetryEvent.read (.datagram data dst src) ∈ events →
    ∃ i a, replies i = some a ∧ data = B.bytes a

theorem ReadsReplies.of_silent {events : List RetryEvent}
    (h : ∀ data dst src, RetryEvent.read (.datagram data dst src) ∉ events) :
    ReadsReplies B replies events :=
  fun data dst src hmem => absurd hmem (h data dst src)

theorem ReadsReplies.append {events events' : List RetryEvent}
    (h : ReadsReplies B replies events) (h' : ReadsReplies B replies events') :
    ReadsReplies B replies (events ++ events') :=
  fun data dst src hmem => (List.mem_append.mp hmem).elim (h data dst src) (h' data dst src)

/-- The loop of a call reads replies, and waits or returns. -/
theorem hearing_loop
    (hreplies : ∀ d ∈ c.destinations, ∃ i a, replies i = some a ∧ d = B.id (nodes i))
    (rounds : List RetryRound) : ∀ {s : RetryState} {b b' : Bus ι ν},
    Hearing B nodes replies s.answers b →
    BusRun B.lossless c.command b (retryLoop c s rounds).1 b' →
    ReadsReplies B replies (retryLoop c s rounds).1 ∧
    ∃ t, Hearing B nodes replies t.answers b' ∧
      ((retryLoop c s rounds).2 = .waiting t ∨
        (retryLoop c s rounds).2 = .finished (.returned t.answers)) := by
  induction rounds with
  | nil =>
      intro s b b' hhearing hbus
      cases hbus
      refine ⟨.of_silent fun _ _ _ h => absurd h List.not_mem_nil, s, hhearing, ?_⟩
      by_cases hopen : Unanswered c s.answers
      · exact .inl (by simp [retryLoop, hopen])
      · exact .inr (by simp [retryLoop, hopen])
  | cons r rounds ih =>
      intro s b b' hhearing hbus
      by_cases hopen : Unanswered c s.answers
      · have hstep := retryStep_spec c s r
        simp only [retryLoop, if_pos hopen] at hbus ⊢
        -- a timeout asks for nobody
        have htimeout : ∀ {fs}, BusRun B.lossless c.command b (.read .timeout :: fs) b' →
            c.timedoutBoards s.answers = [] := by
          rintro fs (_ | ⟨hread, -⟩)
          cases hread with
          | timeout hempty => exact hhearing.timeout hreplies hempty
        rcases hout : retryStep c s r with ⟨fs, t | result⟩
        · rw [hout] at hstep hbus
          cases hstep with
          | answer hr =>
              rcases hbus with _ | ⟨hread, hrest⟩
              cases hread with
              | datagram hmem =>
                  obtain ⟨hreads, hend⟩ := ih (hhearing.read hmem) hrest
                  refine ⟨.append (fun data dst src hin => ?_) hreads, hend⟩
                  obtain ⟨i, a, ha, hpair⟩ := hhearing.only _ hmem
                  rw [List.mem_singleton] at hin
                  cases hin
                  exact ⟨i, a, ha, (Prod.mk.inj hpair).2⟩
          | ignore hr hnone =>
              rcases hbus with _ | ⟨hread, hrest⟩
              cases hread
              obtain ⟨hreads, hend⟩ := ih hhearing hrest
              exact ⟨.append (.of_silent (by simp)) hreads, hend⟩
          | again hr hsome => exact absurd (htimeout hbus) hsome
        · rw [hout] at hstep hbus
          cases hstep with
          | limit hr hsome => exact absurd (htimeout hbus) hsome
          | raise hr hsome => exact absurd (htimeout hbus) hsome
      · simp only [retryLoop, if_neg hopen] at hbus ⊢
        cases hbus
        exact ⟨.of_silent fun _ _ _ h => absurd h List.not_mem_nil, s, hhearing, .inr rfl⟩

/-- A call whose destinations are there: each of them executes the command once, and the call waits
    for its answers or returns them. -/
theorem lossless_call (hsend : (writeCommand c.command c.destinations c.source).isSome = true)
    (hkeeps : B.KeepsId c.command) (hpresent : ∀ d ∈ c.destinations, ∃ i, B.id (nodes i) = d)
    {received : List (Nat × List UInt8)} {cleared : List Yield} {rounds : List RetryRound}
    {b' : Bus ι ν}
    (h : BusRun B.lossless c.command ⟨nodes, received⟩ (writeCommandRetry c cleared rounds).1 b') :
    ∃ replies, (∀ i, B.Hears c.command c.destinations (nodes i) (replies i) (b'.nodes i)) ∧
      (∀ i, B.id (nodes i) ∈ c.destinations → replies i ≠ none) ∧
      ReadsReplies B replies (writeCommandRetry c cleared rounds).1 ∧
      ∃ t, Hearing B b'.nodes replies t.answers b' ∧
        ((writeCommandRetry c cleared rounds).2 = .waiting t ∨
          (writeCommandRetry c cleared rounds).2 = .finished (.returned t.answers)) := by
  obtain ⟨frames, hframes⟩ := Option.isSome_iff_exists.mp hsend
  simp only [writeCommandRetry, hframes] at h ⊢
  cases h.of_dropped with
  | @cons _ m _ _ _ hstep hrest =>
      cases hstep with
      | transmit hdelivery =>
          obtain ⟨replies, hears, hexecutes, hheard, honly⟩ := hdelivery
          have hid : ∀ i, B.id (m.nodes i) = B.id (nodes i) := fun i => (hears i).keepsId hkeeps
          have hreplies : ∀ d ∈ c.destinations,
              ∃ i a, replies i = some a ∧ d = B.id (m.nodes i) := by
            intro d hd
            obtain ⟨i, rfl⟩ := hpresent d hd
            obtain ⟨a, ha⟩ := Option.ne_none_iff_exists'.mp (hexecutes i hd)
            exact ⟨i, a, ha, (hid i).symm⟩
          have hstart : Hearing B m.nodes replies (⟨∅, 0⟩ : RetryState).answers m :=
            ⟨rfl, fun i a ha => .inr (hheard i a ha), honly, fun _ _ hanswer => by simp at hanswer⟩
          obtain ⟨hreads, t, hhearing, hstatus⟩ := hearing_loop hreplies rounds hstart hrest
          rw [← hhearing.same] at hears hhearing
          refine ⟨replies, hears, hexecutes, .append (.of_silent (by simp)) ?_, t, hhearing,
            hstatus⟩
          have htransmit : ReadsReplies B replies [.transmit c.destinations frames] :=
            .of_silent (by simp)
          exact htransmit.append hreads

end Calls

/-! ## Plans -/

section Plans

variable {B : BoardModel ν α} {unpackb : Unpackb}

/-- Whatever the board does when it executes each command of the plan once, in order, its answers
    are accepted, and are no complaints. -/
def Progresses (B : BoardModel ν α) (unpackb : Unpackb) : List PlanStep → ν → Prop
  | [], _ => True
  | step :: plan, n => ∀ a n', B.exec n step.call.command a n' →
      (step.Accepts unpackb (B.bytes a) ∧ ¬ B.Complaint (B.bytes a)) ∧
        Progresses B unpackb plan n'

/-- No complaint is read. -/
def NoComplaints (B : BoardModel ν α) (trace : SessionTrace) : Prop :=
  ∀ c events, (c, events) ∈ trace → ∀ data dst src,
    RetryEvent.read (.datagram data dst src) ∈ events → ¬ B.Complaint data

theorem NoComplaints.cons {c : RetryCall} {events : List RetryEvent} {trace : SessionTrace}
    (h : ∀ data dst src, RetryEvent.read (.datagram data dst src) ∈ events → ¬ B.Complaint data)
    (hrest : NoComplaints B trace) : NoComplaints B ((c, events) :: trace) := by
  intro c' events' hmem
  rcases List.mem_cons.mp hmem with heq | hmem
  · cases heq
    exact h
  · exact hrest c' events' hmem

/-- The command of a step can be transmitted, and leaves the IDs of the boards as they are. -/
structure PlanStep.Regular (B : BoardModel ν α) (destinations : List Nat) (step : PlanStep) :
    Prop where
  targets : step.call.destinations = destinations
  sends : (writeCommand step.call.command destinations step.call.source).isSome = true
  keepsId : B.KeepsId step.call.command

/-- A call of the plan: behind it the rest of the plan progresses, if it does not wait. -/
theorem lossless_step {destinations : List Nat} {step : PlanStep} {plan : List PlanStep}
    {nodes : ι → ν} (hstep : step.Regular B destinations)
    (hpresent : ∀ d ∈ destinations, ∃ i, B.id (nodes i) = d)
    (hprogress : ∀ i, B.id (nodes i) ∈ destinations → Progresses B unpackb (step :: plan) (nodes i))
    {received : List (Nat × List UInt8)} {script : CallScript} {b : Bus ι ν}
    (h : BusRun B.lossless step.call.command ⟨nodes, received⟩
      (writeCommandRetry step.call script.cleared script.rounds).1 b) (errorsOccured : Bool) :
    (∀ i, B.id (b.nodes i) = B.id (nodes i)) ∧
      (∀ i, B.id (b.nodes i) ∈ destinations → Progresses B unpackb plan (b.nodes i)) ∧
      (∀ data dst src, RetryEvent.read (.datagram data dst src) ∈
        (writeCommandRetry step.call script.cleared script.rounds).1 → ¬ B.Complaint data) ∧
      (afterCall unpackb step plan errorsOccured
          (writeCommandRetry step.call script.cleared script.rounds).2 = .error none ∨
        afterCall unpackb step plan errorsOccured
          (writeCommandRetry step.call script.cleared script.rounds).2 =
            .ok (plan, errorsOccured)) := by
  obtain ⟨replies, hears, hexecutes, hreads, t, hhearing, hstatus⟩ := lossless_call
    (by rw [hstep.targets]; exact hstep.sends) hstep.keepsId (by rwa [hstep.targets]) h
  rw [hstep.targets] at hears hexecutes
  have hid : ∀ i, B.id (b.nodes i) = B.id (nodes i) := fun i => (hears i).keepsId hstep.keepsId
  have hexec : ∀ i a, replies i = some a →
      (step.Accepts unpackb (B.bytes a) ∧ ¬ B.Complaint (B.bytes a)) ∧
        Progresses B unpackb plan (b.nodes i) := by
    intro i a ha
    have hi := hears i
    rw [ha] at hi
    exact hprogress i hi.1 a _ hi.2
  refine ⟨hid, fun i hdest => ?_, fun data dst src hmem => ?_, ?_⟩
  · rw [hid] at hdest
    obtain ⟨a, ha⟩ := Option.ne_none_iff_exists'.mp (hexecutes i hdest)
    exact (hexec i a ha).2
  · obtain ⟨i, a, ha, rfl⟩ := hreads data dst src hmem
    exact (hexec i a ha).1.2
  · rcases hstatus with hstatus | hstatus
    · exact .inl (by rw [hstatus]; rfl)
    · have hverdict : step.verdict unpackb t.answers = .success := by
        refine PlanStep.verdict_of_accepts fun d answer hanswer => ?_
        obtain ⟨i, a, ha, -, rfl⟩ := hhearing.answers d answer hanswer
        exact (hexec i a ha).1.1
      exact .inr (by simp only [hstatus, afterCall, hverdict])

/-- A tool does not fail: it comes to its end without errors, or waits; and it hears no complaint.
    All its destinations are there. -/
theorem plan_progresses {destinations : List Nat} {scripts : List CallScript} :
    ∀ {plan : List PlanStep} {trace : SessionTrace} {last : Option PlanEnd} {nodes nodes' : ι → ν},
      (∀ step ∈ plan, step.Regular B destinations) →
      (∀ d ∈ destinations, ∃ i, B.id (nodes i) = d) →
      (∀ i, B.id (nodes i) ∈ destinations → Progresses B unpackb plan (nodes i)) →
      runPlan unpackb plan false scripts = (trace, last) →
      SessionRun B.lossless nodes trace nodes' →
      NoComplaints B trace ∧ (last = none ∨ last = some (.completed false)) := by
  have hnil : ∀ {trace : SessionTrace} {last : Option PlanEnd} (scripts : List CallScript),
      runPlan unpackb [] false scripts = (trace, last) →
      NoComplaints B trace ∧ (last = none ∨ last = some (.completed false)) := by
    intro trace last scripts hrun
    obtain ⟨rfl, rfl⟩ : trace = [] ∧ last = some (.completed false) := by
      cases scripts <;> exact ⟨(congrArg Prod.fst hrun).symm, (congrArg Prod.snd hrun).symm⟩
    exact ⟨fun _ _ h => absurd h List.not_mem_nil, .inr rfl⟩
  induction scripts with
  | nil =>
      rintro (_ | ⟨step, plan⟩) trace last nodes nodes' - - - hrun -
      · exact hnil [] hrun
      · obtain ⟨rfl, rfl⟩ := Prod.mk.inj hrun
        exact ⟨fun _ _ h => absurd h List.not_mem_nil, .inl rfl⟩
  | cons script scripts ih =>
      rintro (_ | ⟨step, plan⟩) trace last nodes nodes' hplan hpresent hprogress hrun hbus
      · exact hnil _ hrun
      obtain ⟨hstep, hrest⟩ := List.forall_mem_cons.mp hplan
      rw [runPlan] at hrun
      rcases hnext : afterCall unpackb step plan false
          (writeCommandRetry step.call script.cleared script.rounds).2 with stop | ⟨left, noted⟩
      · simp only [hnext, Prod.mk.injEq] at hrun
        obtain ⟨rfl, rfl⟩ := hrun
        rcases hbus with _ | ⟨hcall, -⟩
        obtain ⟨-, -, hquiet, hwaits | hgoes⟩ := lossless_step hstep hpresent hprogress hcall false
        · rw [hnext, Except.error.injEq] at hwaits
          exact ⟨.cons hquiet fun _ _ h => absurd h List.not_mem_nil, .inl hwaits⟩
        · rw [hnext] at hgoes
          cases hgoes
      · simp only [hnext, Prod.mk.injEq] at hrun
        obtain ⟨rfl, rfl⟩ := hrun
        rcases hbus with _ | ⟨hcall, hcalls⟩
        obtain ⟨hid, hafter, hquiet, hwaits | hgoes⟩ :=
          lossless_step hstep hpresent hprogress hcall false
        · rw [hnext] at hwaits
          cases hwaits
        · rw [hnext, Except.ok.injEq, Prod.mk.injEq] at hgoes
          obtain ⟨rfl, rfl⟩ := hgoes
          obtain ⟨hcomplaints, hend⟩ := ih hrest (fun d hd => by
            obtain ⟨i, hi⟩ := hpresent d hd
            exact ⟨i, (hid i).trans hi⟩) hafter (Prod.eta _).symm hcalls
          exact ⟨.cons hquiet hcomplaints, hend⟩

end Plans

end CanBootloader
