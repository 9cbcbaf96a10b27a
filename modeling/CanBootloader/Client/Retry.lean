/-
  client/cvra_bootloader/utils.py, `write_command` and `write_command_retry`.

  The loop ends when as many nodes have answered as there are entries in the list of
  destinations. It is a machine that takes one yield of its reader at a time (`retryStep`), and
  its run is recorded as events: what is read, what is thrown away, what is transmitted.

  `RetryInv` relates the answers, the retries and the events at the end of every round, and
  `retries_bounded_targeted` says how often the command is transmitted, and to whom.
-/
import CanBootloader.Client.Commands
import CanBootloader.Client.Reader
import Mathlib.Data.List.AList

namespace CanBootloader

/-! ## Transmission -/

/-- `encode_datagram` for a list of IDs; `none` when `bytes` or `struct.pack` raises. -/
def encodeFor (command : List UInt8) (destinations : List Nat) : Option (List UInt8) :=
  if ∀ d ∈ destinations, d < 256 then encodeDatagram command (destinations.map UInt8.ofNat)
  else none

/-- `write_command`: the frames that it transmits. -/
def writeCommand (command : List UInt8) (destinations : List Nat) (source : Nat) :
    Option (List Frame) :=
  (encodeFor command destinations).map fun datagram => datagramToFrames datagram source

/-- The fields of the datagram have room for the list and the command. -/
theorem writeCommand_isSome_iff {command : List UInt8} {destinations : List Nat} {source : Nat} :
    (writeCommand command destinations source).isSome = true ↔
      (∀ d ∈ destinations, d < 256) ∧ destinations.length ≤ 255 ∧ command.length < 2 ^ 32 := by
  unfold writeCommand encodeFor encodeDatagram
  rw [Option.isSome_map]
  by_cases hids : ∀ d ∈ destinations, d < 256
  · rw [if_pos hids, List.length_map]
    split_ifs with hlen
    · simp only [Option.isSome_none, Bool.false_eq_true, false_iff]
      omega
    · simp only [Option.isSome_some, true_iff]
      exact ⟨hids, by omega, by omega⟩
  · rw [if_neg hids]
    simp only [Option.isSome_none, Bool.false_eq_true, false_iff]
    exact fun h => hids h.1

/-- Fewer destinations are no obstacle. -/
theorem writeCommand_subset {command : List UInt8} {destinations boards : List Nat} {source : Nat}
    (hsub : boards ⊆ destinations) (hle : boards.length ≤ destinations.length)
    (h : (writeCommand command destinations source).isSome = true) :
    (writeCommand command boards source).isSome = true := by
  rw [writeCommand_isSome_iff] at h ⊢
  exact ⟨fun d hd => h.1 d (hsub hd), hle.trans h.2.1, h.2.2⟩

/-! ## The loop -/

/-- `list(set(xs) - set(ys))`, in the order in which Python happens to iterate over a set. -/
structure SetDifference where
  list : List Nat → List Nat → List Nat
  nodup : ∀ xs ys, (list xs ys).Nodup
  mem_iff : ∀ xs ys x, x ∈ list xs ys ↔ x ∈ xs ∧ x ∉ ys

/-- The arguments of a call. -/
structure RetryCall where
  command : List UInt8
  destinations : List Nat
  source : Nat
  retryLimit : Int
  errorExit : Bool
  retryForever : Bool
  difference : SetDifference

/-- A dictionary of answers. -/
abbrev Answers := AList fun _ : Nat => List UInt8

structure RetryState where
  answers : Answers
  retryCount : Nat

/-- How a call ends: with the answers of the loop that is through, with those at the retry limit,
    with `exit(1)`, or with an exception of `write_command`. -/
inductive RetryResult where
  | returned (answers : Answers)
  | skipped (answers : Answers)
  | exited
  | raised

inductive RetryStatus where
  | waiting (s : RetryState)
  | finished (result : RetryResult)

inductive RetryEvent where
  | read (y : Yield)
  | dropped (y : Yield)
  | transmit (destinations : List Nat) (frames : List Frame)
  deriving DecidableEq

/-- What the reader yields in one round of the loop, and what it yields if the reception buffer is
    cleared in this round. -/
structure RetryRound where
  received : Yield
  cleared : List Yield

/-- The loop goes on: fewer nodes have answered than there are destinations. -/
def Unanswered (c : RetryCall) (answers : Answers) : Prop :=
  answers.keys.length < c.destinations.length

instance (c : RetryCall) (answers : Answers) : Decidable (Unanswered c answers) :=
  inferInstanceAs (Decidable (_ < _))

/-- The boards that are asked again. -/
def RetryCall.timedoutBoards (c : RetryCall) (answers : Answers) : List Nat :=
  c.difference.list c.destinations answers.keys

/-- The retry limit is reached. -/
def RetryCall.AtLimit (c : RetryCall) (retryCount : Nat) : Prop :=
  c.retryForever = false ∧ (retryCount : Int) ≥ c.retryLimit

instance (c : RetryCall) (retryCount : Nat) : Decidable (c.AtLimit retryCount) :=
  inferInstanceAs (Decidable (_ ∧ _))

/-- One round of the loop. -/
def retryStep (c : RetryCall) (s : RetryState) (r : RetryRound) :
    List RetryEvent × RetryStatus :=
  match r.received with
  | .datagram data _ src =>
      ([.read r.received], .waiting { s with answers := s.answers.insert src data })
  | .timeout =>
      let boards := c.timedoutBoards s.answers
      if boards.length > 0 then
        if c.AtLimit s.retryCount then
          ([.read r.received],
            .finished (if c.errorExit then .exited else .skipped s.answers))
        else
          match writeCommand c.command boards c.source with
          | none => (.read r.received :: r.cleared.map .dropped, .finished .raised)
          | some frames =>
              (.read r.received :: (r.cleared.map .dropped ++ [.transmit boards frames]),
                .waiting { s with retryCount := s.retryCount + 1 })
      else ([.read r.received], .waiting s)

def retryLoop (c : RetryCall) (s : RetryState) : List RetryRound → List RetryEvent × RetryStatus
  | [] => ([], if Unanswered c s.answers then .waiting s else .finished (.returned s.answers))
  | r :: rounds =>
      if Unanswered c s.answers then
        match retryStep c s r with
        | (events, .finished result) => (events, .finished result)
        | (events, .waiting s) =>
            let (more, status) := retryLoop c s rounds
            (events ++ more, status)
      else ([], .finished (.returned s.answers))

/-- `write_command_retry`, with what is read while the reception buffer is cleared first. -/
def writeCommandRetry (c : RetryCall) (cleared : List Yield) (rounds : List RetryRound) :
    List RetryEvent × RetryStatus :=
  match writeCommand c.command c.destinations c.source with
  | none => (cleared.map .dropped, .finished .raised)
  | some frames =>
      let (events, status) := retryLoop c ⟨∅, 0⟩ rounds
      (cleared.map .dropped ++ .transmit c.destinations frames :: events, status)

/-! ## One round -/

/-- A node whose answer was read. -/
def Answered (events : List RetryEvent) (d : Nat) : Prop :=
  ∃ data dst, RetryEvent.read (.datagram data dst d) ∈ events

def RetryEvent.transmission? : RetryEvent → Option (List Nat)
  | .transmit destinations _ => some destinations
  | _ => none

/-- To whom the command was transmitted. -/
def transmissions (events : List RetryEvent) : List (List Nat) :=
  events.filterMap RetryEvent.transmission?

@[simp] theorem transmissions_append (es fs : List RetryEvent) :
    transmissions (es ++ fs) = transmissions es ++ transmissions fs :=
  List.filterMap_append

@[simp] theorem transmissions_dropped (ys : List Yield) :
    transmissions (ys.map .dropped) = [] := by
  induction ys with
  | nil => rfl
  | cons y ys ih => exact ih

theorem answered_append {es fs : List RetryEvent} {d : Nat} :
    Answered (es ++ fs) d ↔ Answered es d ∨ Answered fs d := by
  simp only [Answered, List.mem_append, exists_or]

theorem not_answered_dropped {ys : List Yield} {d : Nat} : ¬ Answered (ys.map .dropped) d := by
  rintro ⟨data, dst, h⟩
  obtain ⟨y, -, hy⟩ := List.mem_map.mp h
  cases hy

theorem transmissions_again (ys : List Yield) (boards : List Nat) (frames : List Frame) :
    transmissions (.read .timeout :: (ys.map .dropped ++ [.transmit boards frames])) = [boards] := by
  rw [← List.singleton_append, transmissions_append, transmissions_append, transmissions_dropped]
  rfl

/-- What a round can do. -/
inductive RetryStep (c : RetryCall) (s : RetryState) (r : RetryRound) :
    List RetryEvent → RetryStatus → Prop
  | answer {data dst : List UInt8} {src : Nat} (hr : r.received = .datagram data dst src) :
      RetryStep c s r [.read (.datagram data dst src)]
        (.waiting { s with answers := s.answers.insert src data })
  | ignore (hr : r.received = .timeout) (hnone : c.timedoutBoards s.answers = []) :
      RetryStep c s r [.read .timeout] (.waiting s)
  | limit (hr : r.received = .timeout) (hsome : c.timedoutBoards s.answers ≠ [])
      (hlimit : c.AtLimit s.retryCount) :
      RetryStep c s r [.read .timeout]
        (.finished (if c.errorExit then .exited else .skipped s.answers))
  | again {frames : List Frame} (hr : r.received = .timeout)
      (hsome : c.timedoutBoards s.answers ≠ []) (hlimit : ¬ c.AtLimit s.retryCount) :
      RetryStep c s r
        (.read .timeout ::
          (r.cleared.map .dropped ++ [.transmit (c.timedoutBoards s.answers) frames]))
        (.waiting { s with retryCount := s.retryCount + 1 })
  | raise (hr : r.received = .timeout) (hsome : c.timedoutBoards s.answers ≠ [])
      (hnone : writeCommand c.command (c.timedoutBoards s.answers) c.source = none) :
      RetryStep c s r (.read .timeout :: r.cleared.map .dropped) (.finished .raised)

theorem retryStep_spec (c : RetryCall) (s : RetryState) (r : RetryRound) :
    RetryStep c s r (retryStep c s r).1 (retryStep c s r).2 := by
  unfold retryStep
  cases hr : r.received with
  | datagram data dst src => exact .answer hr
  | timeout =>
      by_cases hboards : c.timedoutBoards s.answers = []
      · simp only [hboards, List.length_nil, gt_iff_lt, lt_irrefl, if_false]
        exact .ignore hr hboards
      · simp only [List.length_pos_iff.mpr hboards, if_true]
        by_cases hlimit : c.AtLimit s.retryCount
        · simp only [if_pos hlimit]
          exact .limit hr hboards hlimit
        · simp only [if_neg hlimit]
          cases hwrite : writeCommand c.command (c.timedoutBoards s.answers) c.source with
          | none => exact .raise hr hboards hwrite
          | some frames => exact .again hr hboards hlimit

/-! ## The boards that are asked again -/

variable {c : RetryCall} {s t : RetryState} {es fs : List RetryEvent}

theorem RetryCall.mem_timedoutBoards {answers : Answers} {d : Nat} :
    d ∈ c.timedoutBoards answers ↔ d ∈ c.destinations ∧ d ∉ answers := by
  rw [RetryCall.timedoutBoards, c.difference.mem_iff, ← AList.mem_keys]

theorem RetryCall.writeCommand_timedoutBoards
    (hsend : (writeCommand c.command c.destinations c.source).isSome = true) (answers : Answers) :
    (writeCommand c.command (c.timedoutBoards answers) c.source).isSome = true := by
  have hsub : c.timedoutBoards answers ⊆ c.destinations :=
    fun d hd => (RetryCall.mem_timedoutBoards.mp hd).1
  have hnodup : (c.timedoutBoards answers).Nodup := c.difference.nodup _ _
  exact writeCommand_subset hsub (hnodup.subperm hsub).length_le hsend

/-- Every retransmission is for the destinations of which no answer was read before, and there is
    one. -/
def Targeted (c : RetryCall) (es : List RetryEvent) : Prop :=
  ∀ pre post boards frames, es = pre ++ .transmit boards frames :: post →
    transmissions pre ≠ [] →
      boards.Nodup ∧ boards ≠ [] ∧ ∀ d, d ∈ boards ↔ d ∈ c.destinations ∧ ¬ Answered pre d

theorem targeted_append (h : Targeted c es)
    (hfs : ∀ pre post boards frames, fs = pre ++ .transmit boards frames :: post →
      boards.Nodup ∧ boards ≠ [] ∧
        ∀ d, d ∈ boards ↔ d ∈ c.destinations ∧ ¬ Answered (es ++ pre) d) :
    Targeted c (es ++ fs) := by
  intro pre post boards frames heq hpre
  rcases List.append_eq_append_iff.mp heq with ⟨mid, rfl, hmid⟩ | ⟨mid, rfl, hmid⟩
  · exact hfs mid post boards frames hmid
  · cases mid with
    | nil => simpa only [List.append_nil] using hfs [] post boards frames hmid.symm
    | cons e mid =>
        obtain ⟨rfl, hmid⟩ := List.cons.inj hmid
        exact h pre mid boards frames rfl hpre

/-- Without a transmission there is nothing to show. -/
theorem targeted_silent (h : Targeted c es) (hfs : transmissions fs = []) :
    Targeted c (es ++ fs) := by
  refine targeted_append h fun pre post boards frames heq => ?_
  rw [heq, transmissions_append] at hfs
  exact absurd (List.append_eq_nil_iff.mp hfs).2 (by simp [transmissions, RetryEvent.transmission?])

theorem targeted_transmit (h : Targeted c es) {boards : List Nat} (hnodup : boards.Nodup)
    (hne : boards ≠ []) (hmem : ∀ d, d ∈ boards ↔ d ∈ c.destinations ∧ ¬ Answered es d)
    (frames : List Frame) : Targeted c (es ++ [.transmit boards frames]) := by
  refine targeted_append h fun pre post boards' frames' heq => ?_
  cases pre with
  | nil =>
      simp only [List.nil_append, List.cons.injEq, RetryEvent.transmit.injEq] at heq
      obtain ⟨⟨rfl, rfl⟩, -⟩ := heq
      rw [List.append_nil]
      exact ⟨hnodup, hne, hmem⟩
  | cons e pre => simp at heq

/-! ## The invariant -/

/-- What holds between two rounds, behind these events. -/
structure RetryInv (c : RetryCall) (es : List RetryEvent) (s : RetryState) : Prop where
  answered : ∀ d, d ∈ s.answers ↔ Answered es d
  count : (transmissions es).length = s.retryCount + 1
  limit : c.retryForever = false → (s.retryCount : Int) ≤ max c.retryLimit 0
  targeted : Targeted c es

/-- How a run ends. -/
inductive RetryEnd (c : RetryCall) (s : RetryState) : RetryStatus → Prop
  | waiting (h : Unanswered c s.answers) : RetryEnd c s (.waiting s)
  | returned (h : ¬ Unanswered c s.answers) : RetryEnd c s (.finished (.returned s.answers))
  | limit (h : c.AtLimit s.retryCount) :
      RetryEnd c s (.finished (if c.errorExit then .exited else .skipped s.answers))
  | raised : RetryEnd c s (.finished .raised)

/-- Events that are neither answers nor transmissions. -/
theorem RetryInv.silent (h : RetryInv c es s) (hread : ∀ d, ¬ Answered fs d)
    (hfs : transmissions fs = []) : RetryInv c (es ++ fs) s where
  answered d := by rw [h.answered, answered_append, or_iff_left (hread d)]
  count := by rw [transmissions_append, hfs, List.append_nil, h.count]
  limit := h.limit
  targeted := targeted_silent h.targeted hfs

theorem not_answered_timeout {ys : List Yield} {d : Nat} :
    ¬ Answered (.read .timeout :: ys.map .dropped) d := by
  rintro ⟨data, dst, h⟩
  rcases List.mem_cons.mp h with h | h
  · cases h
  · exact not_answered_dropped ⟨data, dst, h⟩

/-- The rounds that another one follows keep the invariant. -/
theorem RetryInv.step {r : RetryRound} (h : RetryInv c es s)
    (hstep : RetryStep c s r fs (.waiting t)) : RetryInv c (es ++ fs) t := by
  cases hstep with
  | @answer data dst src hr =>
      have hsrc : ∀ d, Answered [.read (.datagram data dst src)] d ↔ d = src := by
        intro d
        simp [Answered]
      have hnone : transmissions [.read (.datagram data dst src)] = [] := rfl
      refine ⟨fun d => ?_, ?_, h.limit, targeted_silent h.targeted hnone⟩
      · rw [AList.mem_insert, answered_append, hsrc, h.answered, or_comm]
      · rw [transmissions_append, hnone, List.append_nil, h.count]
  | ignore hr hnone => exact h.silent (fun d => @not_answered_timeout [] d) rfl
  | @again frames hr hsome hlimit =>
      have hsilent : RetryInv c (es ++ (.read .timeout :: r.cleared.map .dropped)) s :=
        h.silent (fun d => not_answered_timeout) (transmissions_dropped r.cleared)
      have hsplit : es ++ (RetryEvent.read .timeout ::
          (r.cleared.map .dropped ++ [.transmit (c.timedoutBoards s.answers) frames])) =
            (es ++ (.read .timeout :: r.cleared.map .dropped)) ++
              [.transmit (c.timedoutBoards s.answers) frames] := by
        simp
      rw [hsplit]
      refine ⟨fun d => ?_, ?_, fun hforever => ?_, ?_⟩
      · rw [answered_append, hsilent.answered, or_iff_left]
        rintro ⟨data, dst, hmem⟩
        simp at hmem
      · rw [transmissions_append, List.length_append, hsilent.count]
        rfl
      · have hlt : ¬ (s.retryCount : Int) ≥ c.retryLimit := fun hge => hlimit ⟨hforever, hge⟩
        simp only [Nat.cast_add, Nat.cast_one]
        omega
      · refine targeted_transmit hsilent.targeted (c.difference.nodup _ _) hsome ?_ frames
        exact fun d => RetryCall.mem_timedoutBoards.trans (by rw [hsilent.answered])

/-- The rounds that end the loop. -/
theorem RetryInv.last {r : RetryRound} {result : RetryResult} (h : RetryInv c es s)
    (hstep : RetryStep c s r fs (.finished result)) :
    RetryInv c (es ++ fs) s ∧ RetryEnd c s (.finished result) := by
  cases hstep with
  | limit hr hsome hlimit =>
      exact ⟨h.silent (fun d => @not_answered_timeout [] d) rfl, .limit hlimit⟩
  | raise hr hsome hnone =>
      exact ⟨h.silent (fun d => not_answered_timeout) (transmissions_dropped r.cleared), .raised⟩

theorem RetryInv.loop (rounds : List RetryRound) : ∀ {es : List RetryEvent} {s : RetryState},
    RetryInv c es s → ∃ t, RetryInv c (es ++ (retryLoop c s rounds).1) t ∧
      RetryEnd c t (retryLoop c s rounds).2 := by
  induction rounds with
  | nil =>
      intro es s h
      refine ⟨s, by simpa [retryLoop] using h, ?_⟩
      by_cases hopen : Unanswered c s.answers
      · simpa [retryLoop, hopen] using RetryEnd.waiting hopen
      · simpa [retryLoop, hopen] using RetryEnd.returned hopen
  | cons r rounds ih =>
      intro es s h
      by_cases hopen : Unanswered c s.answers
      · have hstep := retryStep_spec c s r
        simp only [retryLoop, if_pos hopen]
        rcases hout : retryStep c s r with ⟨fs, t | result⟩
        · rw [hout] at hstep
          obtain ⟨u, hinv, hend⟩ := ih (h.step hstep)
          exact ⟨u, by rwa [List.append_assoc] at hinv, hend⟩
        · rw [hout] at hstep
          exact ⟨s, h.last hstep⟩
      · refine ⟨s, by simpa [retryLoop, hopen] using h, ?_⟩
        simpa [retryLoop, hopen] using RetryEnd.returned hopen

/-- The events before the first round. -/
theorem retryInv_start (c : RetryCall) (cleared : List Yield) (frames : List Frame) :
    RetryInv c (cleared.map .dropped ++ [.transmit c.destinations frames]) ⟨∅, 0⟩ where
  answered d := by
    rw [answered_append, or_iff_right not_answered_dropped]
    simp [Answered]
  count := by simp [transmissions, RetryEvent.transmission?]
  limit _ := by simp
  targeted := by
    intro pre post boards frames' heq hpre
    have hcount : (transmissions (cleared.map .dropped ++
        [.transmit c.destinations frames])).length = 1 := by
      simp [transmissions, RetryEvent.transmission?]
    have hlater : 0 < (transmissions (.transmit boards frames' :: post)).length := by
      simp [transmissions, RetryEvent.transmission?]
    have hearlier := List.length_pos_iff.mpr hpre
    rw [heq, transmissions_append, List.length_append] at hcount
    omega

/-- A call whose command can be transmitted. -/
theorem retry_inv (hsend : (writeCommand c.command c.destinations c.source).isSome = true)
    (cleared : List Yield) (rounds : List RetryRound) :
    ∃ t, RetryInv c (writeCommandRetry c cleared rounds).1 t ∧
      RetryEnd c t (writeCommandRetry c cleared rounds).2 := by
  obtain ⟨frames, hframes⟩ := Option.isSome_iff_exists.mp hsend
  obtain ⟨t, hinv, hend⟩ := (retryInv_start c cleared frames).loop rounds
  refine ⟨t, ?_, ?_⟩
  · simpa [writeCommandRetry, hframes] using hinv
  · simpa [writeCommandRetry, hframes] using hend

/-- Any other call. -/
theorem writeCommandRetry_raised
    (hsend : ¬ (writeCommand c.command c.destinations c.source).isSome = true)
    (cleared : List Yield) (rounds : List RetryRound) :
    writeCommandRetry c cleared rounds = (cleared.map .dropped, .finished .raised) := by
  simp [writeCommandRetry, Option.not_isSome_iff_eq_none.mp hsend]

/-! ## Retries -/

/-- Timeouts and nothing else, with room for `retry_limit - k` retransmissions. -/
theorem retryLoop_timeouts (hne : c.destinations ≠ [])
    (hsend : (writeCommand c.command c.destinations c.source).isSome = true)
    (hforever : c.retryForever = false) (rounds : List RetryRound) :
    ∀ k : Nat, (k : Int) ≤ c.retryLimit → c.retryLimit - k < rounds.length →
      (∀ r ∈ rounds, r.received = .timeout) →
      ((transmissions (retryLoop c ⟨∅, k⟩ rounds).1).length : Int) = c.retryLimit - k ∧
        (retryLoop c ⟨∅, k⟩ rounds).2 =
          .finished (if c.errorExit then .exited else .skipped ∅) := by
  induction rounds with
  | nil =>
      intro k hk hlen
      simp only [List.length_nil, Nat.cast_zero] at hlen
      omega
  | cons r rounds ih =>
      intro k hk hlen htimeouts
      obtain ⟨htimeout, htimeouts⟩ := List.forall_mem_cons.mp htimeouts
      have hopen : Unanswered c (∅ : Answers) := List.length_pos_iff.mpr hne
      have hboards : c.timedoutBoards ∅ ≠ [] := by
        obtain ⟨d, hd⟩ := List.exists_mem_of_ne_nil _ hne
        exact List.ne_nil_of_mem (RetryCall.mem_timedoutBoards.mpr ⟨hd, AList.notMem_empty d⟩)
      have hstep := retryStep_spec c ⟨∅, k⟩ r
      simp only [retryLoop, if_pos hopen]
      rcases hout : retryStep c ⟨∅, k⟩ r with ⟨fs, status⟩
      rw [hout] at hstep
      cases hstep with
      | answer hr => rw [htimeout] at hr; cases hr
      | ignore hr hnone => exact absurd hnone hboards
      | limit hr hsome hlimit =>
          have hge : (k : Int) ≥ c.retryLimit := hlimit.2
          refine ⟨?_, rfl⟩
          simp only [transmissions, List.filterMap_cons, RetryEvent.transmission?,
            List.filterMap_nil, List.length_nil, Nat.cast_zero]
          omega
      | again hr hsome hlimit =>
          have hlt : ¬ (k : Int) ≥ c.retryLimit := fun hge => hlimit ⟨hforever, hge⟩
          simp only [List.length_cons, Nat.cast_add, Nat.cast_one] at hlen
          obtain ⟨hcount, hstatus⟩ := ih (k + 1) (by push_cast; omega) (by push_cast; omega)
            htimeouts
          refine ⟨?_, hstatus⟩
          rw [transmissions_append, List.length_append, transmissions_again, List.length_singleton]
          push_cast at hcount ⊢
          omega
      | raise hr hsome hnone =>
          have hwrite := RetryCall.writeCommand_timedoutBoards hsend (∅ : Answers)
          rw [hnone] at hwrite
          exact absurd hwrite (by simp)

/-- How often, and to whom, a command is transmitted: at most once more than the retry limit; each
    time but the first to the destinations without an answer; and as often as the limit permits
    when nobody answers. -/
structure BoundedTargeted (c : RetryCall) (rounds : List RetryRound)
    (run : List RetryEvent × RetryStatus) : Prop where
  bounded : ((transmissions run.1).length : Int) ≤ 1 + c.retryLimit
  targeted : Targeted c run.1
  exhausted : c.destinations ≠ [] →
    (writeCommand c.command c.destinations c.source).isSome = true →
    (∀ r ∈ rounds, r.received = .timeout) → c.retryLimit < rounds.length →
      ((transmissions run.1).length : Int) = 1 + c.retryLimit ∧
        run.2 = .finished (if c.errorExit then .exited else .skipped ∅)

theorem retries_bounded_targeted (c : RetryCall) (hlimit : 0 ≤ c.retryLimit)
    (hforever : c.retryForever = false) (cleared : List Yield) (rounds : List RetryRound) :
    BoundedTargeted c rounds (writeCommandRetry c cleared rounds) := by
  by_cases hsend : (writeCommand c.command c.destinations c.source).isSome = true
  · obtain ⟨t, hinv, -⟩ := retry_inv hsend cleared rounds
    refine ⟨?_, hinv.targeted, fun hne _ htimeouts hlen => ?_⟩
    · have hretries := hinv.limit hforever
      rw [hinv.count]
      push_cast
      omega
    · obtain ⟨hcount, hstatus⟩ := retryLoop_timeouts hne hsend hforever rounds 0 (by simpa)
        (by simpa using hlen) htimeouts
      obtain ⟨frames, hframes⟩ := Option.isSome_iff_exists.mp hsend
      refine ⟨?_, by simpa [writeCommandRetry, hframes] using hstatus⟩
      have hfirst : transmissions (writeCommandRetry c cleared rounds).1 =
          c.destinations :: transmissions (retryLoop c ⟨∅, 0⟩ rounds).1 := by
        simp only [writeCommandRetry, hframes, transmissions_append, transmissions_dropped]
        rfl
      rw [hfirst, List.length_cons]
      push_cast at hcount ⊢
      omega
  · -- nothing is transmitted
    have hnone : transmissions (cleared.map .dropped) = [] := transmissions_dropped cleared
    rw [writeCommandRetry_raised hsend]
    refine ⟨?_, ?_, fun _ h => absurd h hsend⟩
    · simp only [hnone, List.length_nil, Nat.cast_zero]
      omega
    · have hempty : Targeted c [] := by
        intro pre post boards frames heq
        simp at heq
      exact targeted_silent hempty hnone

/-- Sets in the order of the list. -/
def listedDifference : SetDifference where
  list xs ys := xs.dedup.filter fun x => x ∉ ys
  nodup xs ys := xs.nodup_dedup.filter _
  mem_iff xs ys x := by simp

/-- A ping with one retry. -/
def pingCall (destinations : List Nat) : RetryCall where
  command := encodePing
  destinations := destinations
  source := 0
  retryLimit := 1
  errorExit := true
  retryForever := false
  difference := listedDifference

/-- Node 2 does not answer. -/
theorem retries_bounded_targeted_ping :
    BoundedTargeted (pingCall [1, 2]) [⟨.datagram [] [] 1, []⟩, ⟨.timeout, []⟩, ⟨.timeout, []⟩]
      (writeCommandRetry (pingCall [1, 2]) []
        [⟨.datagram [] [] 1, []⟩, ⟨.timeout, []⟩, ⟨.timeout, []⟩]) :=
  retries_bounded_targeted (pingCall [1, 2]) (by decide) rfl [] _

/-- A command for nobody is not retried. An answer that is thrown away with the reception buffer
    is asked for again. -/
theorem not_retried_or_asked_again :
    ((transmissions (writeCommandRetry (pingCall []) [] [⟨.timeout, []⟩, ⟨.timeout, []⟩]).1).length :
        Int) ≠ 1 + (pingCall []).retryLimit ∧
      RetryEvent.dropped (.datagram [] [] 1) ∈
        (writeCommandRetry (pingCall [1]) [] [⟨.timeout, [.datagram [] [] 1]⟩]).1 ∧
      transmissions (writeCommandRetry (pingCall [1]) [] [⟨.timeout, [.datagram [] [] 1]⟩]).1 =
        [[1], [1]] := by
  decide +kernel

end CanBootloader
