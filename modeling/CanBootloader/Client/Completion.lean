/-
  When `write_command_retry` is complete.

  It counts the nodes that have answered and compares with the length of the list. These are the
  destinations, and all of them, if the list has no repeats and nobody else is heard
  (`completes_of_distinct`). Otherwise a stream goes wrong: a repeated destination is waited for
  without end (`not_completes_of_repeated`), and a foreign answer takes the place of one that is
  missing (`not_completes_of_foreign`).
-/
import CanBootloader.Client.Retry
import Mathlib.Data.List.GetD

namespace CanBootloader

variable {c : RetryCall} {s : RetryState} {fs : List RetryEvent}

/-- A round in which nobody but these nodes is heard. -/
def RetryRound.From (nodes : Set Nat) (r : RetryRound) : Prop :=
  ∀ data dst src, r.received = .datagram data dst src → src ∈ nodes

def firstRounds (stream : Nat → RetryRound) (n : Nat) : List RetryRound :=
  (List.range n).map stream

/-- The loop ends with the answers of all destinations, and does not go on for ever when it has
    read them. -/
structure Completes (c : RetryCall) (cleared : List Yield) (stream : Nat → RetryRound) :
    Prop where
  complete : ∀ n answers,
    (writeCommandRetry c cleared (firstRounds stream n)).2 = .finished (.returned answers) →
      ∀ d ∈ c.destinations, d ∈ answers
  ends : (∃ n, ∀ d ∈ c.destinations,
      Answered (writeCommandRetry c cleared (firstRounds stream n)).1 d) →
    ∃ n result, (writeCommandRetry c cleared (firstRounds stream n)).2 = .finished result

section From

variable {nodes : Set Nat} {rounds : List RetryRound}

theorem answered_retryStep {r : RetryRound} {status : RetryStatus} (hr : r.From nodes)
    (hstep : RetryStep c s r fs status) {d : Nat} (h : Answered fs d) : d ∈ nodes := by
  obtain ⟨data, dst, hmem⟩ := h
  cases hstep with
  | @answer data' dst' src hread =>
      obtain ⟨rfl, rfl, rfl⟩ : data = data' ∧ dst = dst' ∧ d = src := by simpa using hmem
      exact hr _ _ _ hread
  | ignore => simp at hmem
  | limit => simp at hmem
  | again => simp at hmem
  | raise => simp at hmem

/-- Only these nodes have answers. -/
theorem answered_retryLoop (hrounds : ∀ r ∈ rounds, r.From nodes) {d : Nat} :
    ∀ {s : RetryState}, Answered (retryLoop c s rounds).1 d → d ∈ nodes := by
  induction rounds with
  | nil =>
      intro s h
      obtain ⟨data, dst, hmem⟩ := h
      exact absurd hmem List.not_mem_nil
  | cons r rounds ih =>
      intro s h
      obtain ⟨hr, hrounds⟩ := List.forall_mem_cons.mp hrounds
      have hstep := retryStep_spec c s r
      by_cases hopen : Unanswered c s.answers
      · simp only [retryLoop, if_pos hopen] at h
        rcases hout : retryStep c s r with ⟨fs, t | result⟩
        · rw [hout] at h hstep
          rcases answered_append.mp h with h | h
          · exact answered_retryStep hr hstep h
          · exact ih hrounds h
        · rw [hout] at h hstep
          exact answered_retryStep hr hstep h
      · simp only [retryLoop, if_neg hopen] at h
        obtain ⟨data, dst, hmem⟩ := h
        exact absurd hmem List.not_mem_nil

theorem answered_writeCommandRetry (hrounds : ∀ r ∈ rounds, r.From nodes) {cleared : List Yield}
    {d : Nat} (h : Answered (writeCommandRetry c cleared rounds).1 d) : d ∈ nodes := by
  unfold writeCommandRetry at h
  cases hsend : writeCommand c.command c.destinations c.source with
  | none =>
      rw [hsend] at h
      exact absurd h not_answered_dropped
  | some frames =>
      rw [hsend] at h
      rcases answered_append.mp h with h | ⟨data, dst, hmem⟩
      · exact absurd h not_answered_dropped
      · rcases List.mem_cons.mp hmem with hmem | hmem
        · cases hmem
        · exact answered_retryLoop hrounds ⟨data, dst, hmem⟩

end From

/-- A list without repeats, and nobody else on the bus. -/
theorem completes_of_distinct (hdistinct : c.destinations.Nodup)
    (hsend : (writeCommand c.command c.destinations c.source).isSome = true)
    (cleared : List Yield) {stream : Nat → RetryRound}
    (hfrom : ∀ n, (stream n).From {d | d ∈ c.destinations}) : Completes c cleared stream := by
  have hrounds : ∀ n, ∀ r ∈ firstRounds stream n, r.From {d | d ∈ c.destinations} := by
    intro n r hr
    obtain ⟨i, -, rfl⟩ := List.mem_map.mp hr
    exact hfrom i
  constructor
  · intro n answers hreturned d hd
    obtain ⟨t, hinv, hend⟩ := retry_inv hsend cleared (firstRounds stream n)
    rw [hreturned] at hend
    generalize hresult : RetryStatus.finished (.returned answers) = result at hend
    cases hend with
    | waiting => cases hresult
    | limit => split_ifs at hresult <;> cases hresult
    | raised => cases hresult
    | returned hclosed =>
        obtain rfl : answers = t.answers := by simpa using hresult
        have hsub : t.answers.keys ⊆ c.destinations := by
          intro k hk
          have hanswered := (hinv.answered k).mp (AList.mem_keys.mpr hk)
          exact answered_writeCommandRetry (hrounds n) hanswered
        have hsame := (t.answers.keys_nodup.subperm hsub).perm_of_length_le (not_lt.mp hclosed)
        exact AList.mem_keys.mpr (hsame.mem_iff.mpr hd)
  · rintro ⟨n, hall⟩
    obtain ⟨t, hinv, hend⟩ := retry_inv hsend cleared (firstRounds stream n)
    have hclosed : ¬ Unanswered c t.answers := by
      have hsub : c.destinations ⊆ t.answers.keys :=
        fun d hd => AList.mem_keys.mp ((hinv.answered d).mpr (hall d hd))
      exact not_lt.mpr (hdistinct.subperm hsub).length_le
    cases hstatus : (writeCommandRetry c cleared (firstRounds stream n)).2 with
    | finished result => exact ⟨n, result, hstatus⟩
    | waiting u =>
        rw [hstatus] at hend
        cases hend with
        | waiting hopen => exact absurd hopen hclosed

/-! ## Streams that go wrong -/

/-- A round in which this node answers. -/
def heard (src : Nat) : RetryRound := ⟨.datagram [] [] src, []⟩

def silence : RetryRound := ⟨.timeout, []⟩

theorem heard_from {nodes : Set Nat} {src : Nat} (h : src ∈ nodes) : (heard src).From nodes := by
  intro data dst src' heq
  obtain ⟨-, -, rfl⟩ := Yield.datagram.inj heq
  exact h

theorem silence_from (nodes : Set Nat) : silence.From nodes := by
  intro data dst src heq
  cases heq

/-- These rounds, and behind them always the same one. -/
def thenAlways (rounds : List RetryRound) (r : RetryRound) : Nat → RetryRound :=
  fun n => rounds.getD n r

theorem firstRounds_thenAlways (rounds : List RetryRound) (r : RetryRound) (n : Nat) :
    firstRounds (thenAlways rounds r) (rounds.length + n) = rounds ++ List.replicate n r := by
  apply List.ext_getElem
  · simp [firstRounds]
  · intro i h1 h2
    by_cases hi : i < rounds.length
    · simp [firstRounds, thenAlways, hi]
    · simp [firstRounds, thenAlways, List.getElem_append, hi]

theorem thenAlways_from {nodes : Set Nat} {rounds : List RetryRound} {r : RetryRound}
    (hrounds : ∀ x ∈ rounds, x.From nodes) (hr : r.From nodes) (n : Nat) :
    (thenAlways rounds r n).From nodes := by
  unfold thenAlways
  by_cases hn : n < rounds.length
  · rw [List.getD_eq_getElem _ _ hn]
    exact hrounds _ (List.getElem_mem hn)
  · rw [List.getD_eq_default _ _ (not_lt.mp hn)]
    exact hr

/-- The answers when these nodes have answered one after the other. -/
def answersAfter (answers : Answers) (srcs : List Nat) : Answers :=
  srcs.foldl (fun answers src => answers.insert src []) answers

theorem mem_answersAfter (srcs : List Nat) : ∀ {answers : Answers} {d : Nat},
    d ∈ answersAfter answers srcs ↔ d ∈ answers ∨ d ∈ srcs := by
  induction srcs with
  | nil => intro answers d; simp [answersAfter]
  | cons src srcs ih =>
      intro answers d
      have hstep : answersAfter answers (src :: srcs) =
          answersAfter (answers.insert src []) srcs := rfl
      rw [hstep, ih, AList.mem_insert, List.mem_cons]
      tauto

/-- Never more answers than nodes that have answered. -/
theorem keys_answersAfter_length_le (srcs : List Nat) :
    (answersAfter ∅ srcs).keys.length ≤ srcs.length := by
  refine ((answersAfter ∅ srcs).keys_nodup.subperm fun d hd => ?_).length_le
  exact ((mem_answersAfter srcs).mp (AList.mem_keys.mpr hd)).resolve_left (AList.notMem_empty d)

/-- Answers are read as long as the loop goes on. -/
theorem retryLoop_heard (srcs : List Nat) (rest : List RetryRound) (k : Nat) :
    ∀ {answers : Answers},
      (∀ i < srcs.length, Unanswered c (answersAfter answers (srcs.take i))) →
      retryLoop c ⟨answers, k⟩ (srcs.map heard ++ rest) =
        (srcs.map (fun src => .read (.datagram [] [] src)) ++
            (retryLoop c ⟨answersAfter answers srcs, k⟩ rest).1,
          (retryLoop c ⟨answersAfter answers srcs, k⟩ rest).2) := by
  induction srcs with
  | nil => intro answers _; rfl
  | cons src srcs ih =>
      intro answers hopen
      have hnow : Unanswered c answers := hopen 0 (by simp)
      have hrest := @ih (answers.insert src []) fun i hi => hopen (i + 1) (by simpa using hi)
      rw [List.map_cons, List.cons_append, retryLoop, if_pos hnow]
      simp only [retryStep, heard]
      rw [hrest]
      rfl

/-- When no destination is without an answer, timeouts change nothing. -/
theorem retryLoop_silence (hopen : Unanswered c s.answers)
    (hnone : c.timedoutBoards s.answers = []) (n : Nat) :
    (retryLoop c s (List.replicate n silence)).2 = .waiting s := by
  induction n with
  | zero => simp [retryLoop, hopen]
  | succ n ih =>
      rw [List.replicate_succ, retryLoop, if_pos hopen]
      simp only [retryStep, silence, hnone, List.length_nil, gt_iff_lt, lt_irrefl, if_false]
      exact ih

/-- A loop that has ended takes no more rounds. -/
theorem retryLoop_finished (rounds more : List RetryRound) {result : RetryResult} :
    ∀ {s : RetryState}, (retryLoop c s rounds).2 = .finished result →
      (retryLoop c s (rounds ++ more)).2 = .finished result := by
  induction rounds with
  | nil =>
      intro s h
      by_cases hopen : Unanswered c s.answers
      · simp [retryLoop, hopen] at h
      · cases more with
        | nil => exact h
        | cons r more =>
            rw [List.nil_append, retryLoop, if_neg hopen]
            simpa [retryLoop, hopen] using h
  | cons r rounds ih =>
      intro s h
      rw [List.cons_append, retryLoop]
      rw [retryLoop] at h
      split_ifs at h ⊢
      · rcases hout : retryStep c s r with ⟨fs, t | last⟩
        · rw [hout] at h
          exact ih h
        · rw [hout] at h
          exact h
      · exact h

/-- A call that has ended stays so. -/
theorem writeCommandRetry_finished {cleared : List Yield} {stream : Nat → RetryRound}
    {result : RetryResult} {n : Nat} (k : Nat)
    (h : (writeCommandRetry c cleared (firstRounds stream n)).2 = .finished result) :
    (writeCommandRetry c cleared (firstRounds stream (n + k))).2 = .finished result := by
  unfold writeCommandRetry at h ⊢
  cases hsend : writeCommand c.command c.destinations c.source with
  | none =>
      rw [hsend] at h
      exact h
  | some frames =>
      rw [hsend] at h
      rw [firstRounds, List.range_add, List.map_append]
      exact retryLoop_finished _ _ h

/-- The number of answers of destinations never reaches the length of a list with repeats. -/
theorem unanswered_of_repeated (hrepeated : ¬ c.destinations.Nodup) {answers : Answers}
    (hsub : ∀ d ∈ answers, d ∈ c.destinations) : Unanswered c answers := by
  have hsubperm := answers.keys_nodup.subperm fun d hd => hsub d (AList.mem_keys.mpr hd)
  refine lt_of_le_of_ne hsubperm.length_le fun heq => hrepeated ?_
  exact (hsubperm.perm_of_length_le heq.ge).nodup_iff.mp answers.keys_nodup

/-- A destination that is listed twice is waited for twice: behind the answers of all destinations
    the loop goes on for ever. -/
theorem not_completes_of_repeated (hrepeated : ¬ c.destinations.Nodup)
    (hsend : (writeCommand c.command c.destinations c.source).isSome = true) :
    ∃ stream : Nat → RetryRound, (∀ n, (stream n).From {d | d ∈ c.destinations}) ∧
      ¬ Completes c [] stream := by
  obtain ⟨frames, hframes⟩ := Option.isSome_iff_exists.mp hsend
  have hafter : ∀ i, Unanswered c (answersAfter ∅ (c.destinations.take i)) := by
    refine fun i => unanswered_of_repeated hrepeated fun d hd => ?_
    rcases (mem_answersAfter _).mp hd with hd | hd
    · exact absurd hd (AList.notMem_empty d)
    · exact List.mem_of_mem_take hd
  have hall : Unanswered c (answersAfter ∅ c.destinations) := by
    simpa using hafter c.destinations.length
  have hnone : c.timedoutBoards (answersAfter ∅ c.destinations) = [] := by
    refine List.eq_nil_iff_forall_not_mem.mpr fun d hd => ?_
    obtain ⟨hd, hmissing⟩ := RetryCall.mem_timedoutBoards.mp hd
    exact hmissing ((mem_answersAfter _).mpr (.inr hd))
  -- all destinations answer, and then there are timeouts
  let stream := thenAlways (c.destinations.map heard) silence
  have hrounds : ∀ n, firstRounds stream (c.destinations.length + n) =
      c.destinations.map heard ++ List.replicate n silence := by
    simpa using firstRounds_thenAlways (c.destinations.map heard) silence
  have hrun := fun n => @retryLoop_heard c c.destinations (List.replicate n silence) 0 ∅
    fun i _ => hafter i
  refine ⟨stream, thenAlways_from ?_ (silence_from _), fun hcompletes => ?_⟩
  · intro r hr
    obtain ⟨d, hd, rfl⟩ := List.mem_map.mp hr
    exact heard_from hd
  · have hanswered : ∀ d ∈ c.destinations, Answered
        (writeCommandRetry c [] (firstRounds stream (c.destinations.length + 0))).1 d := by
      refine fun d hd => ⟨[], [], ?_⟩
      simp only [writeCommandRetry, hframes, hrounds, hrun]
      simp [hd]
    obtain ⟨n, result, hfinished⟩ := hcompletes.ends ⟨_, hanswered⟩
    have hlater := writeCommandRetry_finished c.destinations.length hfinished
    rw [Nat.add_comm] at hlater
    simp only [writeCommandRetry, hframes, hrounds, hrun] at hlater
    rw [retryLoop_silence hall hnone] at hlater
    cases hlater

/-- Another node takes the place of the last destination. -/
theorem not_completes_of_foreign (hdistinct : c.destinations.Nodup)
    (hne : c.destinations ≠ [])
    (hsend : (writeCommand c.command c.destinations c.source).isSome = true) {foreign : Nat}
    (hforeign : foreign ∉ c.destinations) :
    ∃ stream : Nat → RetryRound,
      (∀ n, (stream n).From {d | d ∈ c.destinations ∨ d = foreign}) ∧
        ¬ Completes c [] stream := by
  obtain ⟨frames, hframes⟩ := Option.isSome_iff_exists.mp hsend
  obtain ⟨ds, last, hds⟩ := (List.eq_nil_or_concat' c.destinations).resolve_left hne
  let srcs : List Nat := foreign :: ds
  have hlen : srcs.length = c.destinations.length := by simp [srcs, hds]
  rw [hds, List.nodup_append] at hdistinct
  rw [hds, List.mem_append, List.mem_singleton, not_or] at hforeign
  have hsrcs : srcs.Nodup := List.nodup_cons.mpr ⟨hforeign.1, hdistinct.1⟩
  have hlast : last ∉ srcs := by
    rw [List.mem_cons, not_or]
    exact ⟨fun h => hforeign.2 h.symm, fun h => hdistinct.2.2 last h last (by simp) rfl⟩
  have hopen : ∀ i < srcs.length, Unanswered c (answersAfter ∅ (srcs.take i)) := by
    intro i hi
    have hkeys := keys_answersAfter_length_le (srcs.take i)
    rw [List.length_take] at hkeys
    rw [Unanswered]
    omega
  have hclosed : ¬ Unanswered c (answersAfter ∅ srcs) := by
    refine not_lt.mpr ?_
    rw [← hlen]
    refine (hsrcs.subperm fun d hd => ?_).length_le
    exact AList.mem_keys.mp ((mem_answersAfter srcs).mpr (.inr hd))
  let stream := thenAlways (srcs.map heard) (heard foreign)
  refine ⟨stream, thenAlways_from ?_ (heard_from (.inr rfl)), fun hcompletes => ?_⟩
  · intro r hr
    obtain ⟨src, hsrc, rfl⟩ := List.mem_map.mp hr
    rcases List.mem_cons.mp hsrc with h | h
    · exact heard_from (.inr h)
    · exact heard_from (.inl (by rw [hds]; exact List.mem_append_left _ h))
  · have hrounds : firstRounds stream (srcs.length + 0) = srcs.map heard ++ [] := by
      simpa using firstRounds_thenAlways (srcs.map heard) (heard foreign) 0
    have hrun := @retryLoop_heard c srcs [] 0 ∅ hopen
    have hreturned : (writeCommandRetry c [] (firstRounds stream (srcs.length + 0))).2 =
        .finished (.returned (answersAfter ∅ srcs)) := by
      simp only [writeCommandRetry, hframes, hrounds, hrun]
      rw [retryLoop, if_neg hclosed]
    have hmem := hcompletes.complete _ _ hreturned last (by simp [hds])
    rcases (mem_answersAfter srcs).mp hmem with h | h
    · exact AList.notMem_empty last h
    · exact hlast h

/-! ## The result -/

/-- With an empty list, and with one that cannot be transmitted, the call ends at once. -/
theorem completes_trivial
    (h : c.destinations = [] ∨ writeCommand c.command c.destinations c.source = none)
    (cleared : List Yield) (stream : Nat → RetryRound) : Completes c cleared stream := by
  cases hsend : writeCommand c.command c.destinations c.source with
  | none =>
      have hraised : ∀ n, (writeCommandRetry c cleared (firstRounds stream n)).2 =
          .finished .raised := by
        intro n
        simp only [writeCommandRetry, hsend]
      refine ⟨fun n answers hreturned => ?_, fun _ => ⟨0, _, hraised 0⟩⟩
      rw [hraised] at hreturned
      cases hreturned
  | some frames =>
      have hempty : c.destinations = [] := h.resolve_right (by simp [hsend])
      have hclosed : ¬ Unanswered c (∅ : Answers) := by simp [Unanswered, hempty]
      refine ⟨fun n answers _ d hd => ?_, fun _ => ⟨0, .returned ∅, ?_⟩⟩
      · rw [hempty] at hd
        exact absurd hd List.not_mem_nil
      · simp [writeCommandRetry, hsend, firstRounds, retryLoop, hclosed]

theorem Completes.of_from {cleared : List Yield} {nodes nodes' : Set Nat}
    (hsub : nodes' ⊆ nodes)
    (h : ∀ stream : Nat → RetryRound, (∀ n, (stream n).From nodes) → Completes c cleared stream)
    (stream : Nat → RetryRound) (hfrom : ∀ n, (stream n).From nodes') :
    Completes c cleared stream :=
  h stream fun n data dst src hread => hsub (hfrom n data dst src hread)

/-- Let `nodes` be the nodes that may be heard, among them the destinations. The call completes on
    every stream of their datagrams and of timeouts if and only if the list has no repeats and
    there are no other nodes, or the call ends at once. -/
theorem completes_iff (c : RetryCall) (nodes : Set Nat) (hnodes : ∀ d ∈ c.destinations, d ∈ nodes) :
    (∀ cleared, ∀ stream : Nat → RetryRound, (∀ n, (stream n).From nodes) →
      Completes c cleared stream) ↔
    (c.destinations = [] ∨ writeCommand c.command c.destinations c.source = none) ∨
      (c.destinations.Nodup ∧ ∀ src ∈ nodes, src ∈ c.destinations) := by
  constructor
  · intro hall
    by_contra hbad
    obtain ⟨hactive, hbad⟩ := not_or.mp hbad
    obtain ⟨hne, hnone⟩ := not_or.mp hactive
    have hsend : (writeCommand c.command c.destinations c.source).isSome = true :=
      Option.isSome_iff_ne_none.mpr hnone
    by_cases hdistinct : c.destinations.Nodup
    · obtain ⟨foreign, hmem, hforeign⟩ : ∃ src ∈ nodes, src ∉ c.destinations := by
        by_contra hno
        refine hbad ⟨hdistinct, fun src hsrc => ?_⟩
        by_contra hnot
        exact hno ⟨src, hsrc, hnot⟩
      obtain ⟨stream, hfrom, hnot⟩ := not_completes_of_foreign hdistinct hne hsend hforeign
      refine hnot (Completes.of_from ?_ (hall []) stream hfrom)
      rintro d (hd | rfl)
      · exact hnodes d hd
      · exact hmem
    · obtain ⟨stream, hfrom, hnot⟩ := not_completes_of_repeated hdistinct hsend
      exact hnot (Completes.of_from hnodes (hall []) stream hfrom)
  · intro h cleared stream hfrom
    rcases h with h | ⟨hdistinct, hsub⟩
    · exact completes_trivial h cleared stream
    · cases hsend : writeCommand c.command c.destinations c.source with
      | none => exact completes_trivial (.inr hsend) cleared stream
      | some frames =>
          exact completes_of_distinct hdistinct (by rw [hsend]; rfl) cleared
            fun n data dst src hread => hsub src (hfrom n data dst src hread)

/-- Nodes 1 and 2 in turn, and nobody else on the bus. -/
def pingStream (n : Nat) : RetryRound := heard (n % 2 + 1)

theorem completes_iff_ping : Completes (pingCall [1, 2]) [] pingStream := by
  refine (completes_iff (pingCall [1, 2]) {1, 2} (by simp [pingCall])).mpr
    (.inr ⟨by decide, ?_⟩) [] _ ?_
  · simp [pingCall]
  · intro n
    have hmod : n % 2 + 1 = 1 ∨ n % 2 + 1 = 2 := by omega
    exact heard_from hmod

/-- Node 9, which nobody asked, and then node 1. -/
def foreignStream (n : Nat) : RetryRound := heard (if n = 0 then 9 else 1)

/-- The call returns without an answer of node 2. -/
theorem foreign_answer_completes : ¬ Completes (pingCall [1, 2]) [] foreignStream := by
  intro hcompletes
  have hreturned : (writeCommandRetry (pingCall [1, 2]) [] (firstRounds foreignStream 2)).2 =
      .finished (.returned (answersAfter ∅ [9, 1])) := by rfl
  have hmem := hcompletes.complete 2 _ hreturned 2 (by decide)
  rcases (mem_answersAfter [9, 1]).mp hmem with h | h
  · exact AList.notMem_empty 2 h
  · exact absurd h (by decide)

end CanBootloader
