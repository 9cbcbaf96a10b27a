/-
  Requests that nodes execute any number of times.

  A sender that retransmits until it hears an answer cannot know how often a node has executed
  its request. `Repeats` is a node that executes one request again and again, with the replies;
  `Contract` says what a single execution does, and `Contract.repeats` what all of them do: the
  request has had its effect as soon as one of the replies is a success.

  * `Rounds.chain`: requests one after the other, each with its contract.
-/
import Mathlib.Tactic.Common
import Mathlib.Data.List.Basic

namespace CanBootloader.Lib.AtLeastOnce

/-- The behaviour of a node: what it can reply to a request, and the state it is in then. -/
abbrev Node (ν ρ α : Type) := ν → ρ → α → ν → Prop

variable {ν ρ α : Type} {exec : Node ν ρ α} {request : ρ}

/-! ## Repeated executions -/

/-- The node executes the request as often as there are replies. -/
inductive Repeats (exec : Node ν ρ α) (request : ρ) : ν → List α → ν → Prop
  | none (n : ν) : Repeats exec request n [] n
  | more {n m n' : ν} {a : α} {replies : List α} (h : exec n request a m)
      (hrest : Repeats exec request m replies n') : Repeats exec request n (a :: replies) n'

theorem Repeats.append {n m n' : ν} {as bs : List α} (h : Repeats exec request n as m)
    (h' : Repeats exec request m bs n') : Repeats exec request n (as ++ bs) n' := by
  induction h with
  | none => exact h'
  | more hexec _ ih => exact .more hexec (ih h')

/-- What one execution of a request does: it is a failure and changes nothing that matters, or
    it leads from `pre` to `post`, where every further one stays. -/
structure Contract (exec : Node ν ρ α) (request : ρ) (ok : α → Prop) (pre post : ν → Prop) :
    Prop where
  first : ∀ {n n' : ν} {a : α}, pre n → exec n request a n' → (pre n' ∧ ¬ ok a) ∨ post n'
  again : ∀ {n n' : ν} {a : α}, post n → exec n request a n' → post n'

namespace Contract

variable {ok : α → Prop} {pre post : ν → Prop} {n n' : ν} {replies : List α}

theorem repeats_post (h : Contract exec request ok pre post)
    (hrun : Repeats exec request n replies n') (hn : post n) : post n' := by
  induction hrun with
  | none => exact hn
  | more hexec _ ih => exact ih (h.again hn hexec)

/-- The rule for repeated executions. -/
theorem repeats (h : Contract exec request ok pre post)
    (hrun : Repeats exec request n replies n') (hn : pre n) :
    (pre n' ∧ ∀ a ∈ replies, ¬ ok a) ∨ post n' := by
  induction hrun with
  | none => exact .inl ⟨hn, by simp⟩
  | more hexec hrest ih =>
      rcases h.first hn hexec with ⟨hpre, hfail⟩ | hpost
      · exact (ih hpre).imp_left fun ⟨hpre, hfails⟩ =>
          ⟨hpre, List.forall_mem_cons.mpr ⟨hfail, hfails⟩⟩
      · exact .inr (h.repeats_post hrest hpost)

/-- A property that every execution keeps. -/
theorem of_invariant {I : ν → Prop} (h : ∀ {n n' a}, I n → exec n request a n' → I n') :
    Contract exec request ok I I where
  first hn hexec := .inr (h hn hexec)
  again := h

end Contract

/-! ## One request after the other -/

/-- Requests in order, each of them executed any number of times. -/
inductive Rounds (exec : Node ν ρ α) : List ρ → ν → List (List α) → ν → Prop
  | nil (n : ν) : Rounds exec [] n [] n
  | cons {request : ρ} {requests : List ρ} {n m n' : ν} {replies : List α}
      {rest : List (List α)} (h : Repeats exec request n replies m)
      (hrest : Rounds exec requests m rest n') :
      Rounds exec (request :: requests) n (replies :: rest) n'

/-- More executions of the first request, in front. -/
theorem Rounds.again {request : ρ} {requests : List ρ} {n m n' : ν} {as replies : List α}
    {rest : List (List α)} (h : Repeats exec request n as m)
    (hrounds : Rounds exec (request :: requests) m (replies :: rest) n') :
    Rounds exec (request :: requests) n ((as ++ replies) :: rest) n' := by
  cases hrounds with
  | cons hreplies hrest => exact .cons (h.append hreplies) hrest

/-- Contracts that fit together. Each request has had a success, or needs none. -/
inductive Chain (exec : Node ν ρ α) :
    List ρ → List (List α) → (ν → Prop) → (ν → Prop) → Prop
  | nil (P : ν → Prop) : Chain exec [] [] P P
  | cons {request : ρ} {requests : List ρ} {replies : List α} {rest : List (List α)}
      {pre mid post : ν → Prop} (ok : α → Prop) (h : Contract exec request ok pre mid)
      (hok : (∃ a ∈ replies, ok a) ∨ ∀ n, pre n → mid n)
      (hrest : Chain exec requests rest mid post) :
      Chain exec (request :: requests) (replies :: rest) pre post

theorem Chain.append {qs qs' : List ρ} {rs rs' : List (List α)} {pre mid post : ν → Prop}
    (h : Chain exec qs rs pre mid) (h' : Chain exec qs' rs' mid post) :
    Chain exec (qs ++ qs') (rs ++ rs') pre post := by
  induction h with
  | nil => exact h'
  | cons ok hcontract hok _ ih => exact .cons ok hcontract hok (ih h')

/-- The rule for sequences. -/
theorem Rounds.chain {requests : List ρ} {n n' : ν} {replies : List (List α)}
    {pre post : ν → Prop} (h : Rounds exec requests n replies n')
    (hchain : Chain exec requests replies pre post) (hn : pre n) : post n' := by
  induction hchain generalizing n with
  | nil => cases h; exact hn
  | cons ok hcontract hok _ ih =>
      obtain ⟨⟩ | ⟨hrun, hrest⟩ := h
      refine ih hrest ?_
      rcases hcontract.repeats hrun hn with ⟨hpre, hfails⟩ | hpost
      · rcases hok with ⟨a, ha, hsuccess⟩ | hweak
        · exact absurd hsuccess (hfails a ha)
        · exact hweak _ hpre
      · exact hpost

end CanBootloader.Lib.AtLeastOnce
