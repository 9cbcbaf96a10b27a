/-
  Streams merged on one line.

  Every channel `i : ι` sends its own stream of items; the line carries them one after the
  other, each tagged with its channel, with silent slots in between. `Interleaves streams
  events` says only that every channel's items keep their order: nothing is lost, nothing is
  added, and no order between channels is fixed.

  `Interleaves.silent` and `Interleaves.item` take one event off the line;
  `Interleaves.induction` is the resulting rule for facts about the whole line.

  `Inserts P xs ys` is the case of one stream with other items in between: `ys` is `xs` with
  items of `P` put in anywhere.
-/
import Mathlib.Tactic

namespace CanBootloader.Lib

variable {ι α : Type} [DecidableEq ι]

/-- The item of an event, if the event is on channel `i`. -/
def onChannel (i : ι) : Option (ι × α) → Option α
  | none => none
  | some (j, x) => if j = i then some x else none

/-- Every channel's items appear on the line in that channel's order. -/
def Interleaves (streams : ι → List α) (events : List (Option (ι × α))) : Prop :=
  ∀ i, events.filterMap (onChannel i) = streams i

namespace Interleaves

variable {streams : ι → List α} {events : List (Option (ι × α))}

theorem silent (h : Interleaves streams (none :: events)) : Interleaves streams events := by
  intro i
  rw [← h i]
  rfl

/-- The next item on the line is the head of its channel's stream. -/
theorem item {i : ι} {x : α} (h : Interleaves streams (some (i, x) :: events)) :
    ∃ rest, streams i = x :: rest ∧ Interleaves (Function.update streams i rest) events := by
  refine ⟨events.filterMap (onChannel i), ?_, ?_⟩
  · rw [← h i]
    simp [onChannel]
  · intro j
    by_cases hj : j = i
    · subst hj
      simp
    · rw [Function.update_of_ne hj, ← h j, List.filterMap_cons_none]
      simp [onChannel, Ne.symm hj]

/-- Induction along the line, with what each channel has left to send. -/
theorem induction {motive : (ι → List α) → List (Option (ι × α)) → Prop}
    (nil : ∀ streams, (∀ i, streams i = []) → motive streams [])
    (silent : ∀ streams events, motive streams events → motive streams (none :: events))
    (item : ∀ streams events i x rest, streams i = x :: rest →
      motive (Function.update streams i rest) events → motive streams (some (i, x) :: events)) :
    ∀ {events : List (Option (ι × α))} {streams : ι → List α},
      Interleaves streams events → motive streams events := by
  intro events
  induction events with
  | nil =>
      intro streams h
      exact nil streams fun i => (h i).symm
  | cons e events ih =>
      intro streams h
      match e with
      | none => exact silent streams events (ih h.silent)
      | some (i, x) =>
          obtain ⟨rest, hrest, hmore⟩ := h.item
          exact item streams events i x rest hrest (ih hmore)

/-- What a channel yields is what its stream yields. -/
theorem filterMap {β : Type} (h : Interleaves streams events) (i : ι) (f : α → Option β) :
    events.filterMap (fun e => (onChannel i e).bind f) = (streams i).filterMap f := by
  rw [← h i, List.filterMap_filterMap]

/-- Items that come out of other items: so does the line. -/
theorem of_map {β : Type} {f : α → β} {streams : ι → List α} :
    ∀ {line : List (Option (ι × β))}, Interleaves (fun i => (streams i).map f) line →
      ∃ events, Interleaves streams events ∧ events.map (Option.map (Prod.map id f)) = line := by
  refine fun {line} h => Interleaves.induction (motive := fun streams' line =>
    ∀ streams : ι → List α, (∀ i, streams' i = (streams i).map f) →
      ∃ events, Interleaves streams events ∧ events.map (Option.map (Prod.map id f)) = line)
    ?_ ?_ ?_ h streams (fun _ => rfl)
  · intro streams' hnil streams hmap
    refine ⟨[], fun i => ?_, rfl⟩
    exact (List.map_eq_nil_iff.mp ((hmap i).symm.trans (hnil i))).symm
  · intro streams' line ih streams hmap
    obtain ⟨events, hevents, hline⟩ := ih streams hmap
    refine ⟨none :: events, fun i => ?_, by rw [List.map_cons, hline]; rfl⟩
    rw [List.filterMap_cons_none rfl]
    exact hevents i
  · intro streams' line i y rest hstream ih streams hmap
    obtain ⟨x, xs, hx, rfl, hxs⟩ := List.map_eq_cons_iff.mp ((hmap i).symm.trans hstream)
    obtain ⟨events, hevents, hline⟩ := ih (Function.update streams i xs) (by
      intro j
      by_cases hj : j = i
      · subst hj
        rw [Function.update_self, Function.update_self, hxs]
      · rw [Function.update_of_ne hj, Function.update_of_ne hj]
        exact hmap j)
    refine ⟨some (i, x) :: events, fun j => ?_, by rw [List.map_cons, hline]; rfl⟩
    have hj := hevents j
    by_cases hij : i = j
    · subst hij
      rw [Function.update_self] at hj
      simp [onChannel, hj, hx]
    · rw [Function.update_of_ne (Ne.symm hij)] at hj
      simp [onChannel, hij, hj]

/-- A line with one channel. -/
theorem single (i : ι) (xs : List α) :
    Interleaves (fun j => if j = i then xs else []) (xs.map fun x => some (i, x)) := by
  intro j
  rw [List.filterMap_map]
  by_cases hj : j = i
  · simp [onChannel, hj]
  · simp [Function.comp_def, onChannel, hj, Ne.symm hj]

end Interleaves

/-! ## Insertions -/

/-- `ys` is `xs` with any number of items of `P` inserted. -/
inductive Inserts {α : Type} (P : α → Prop) : List α → List α → Prop
  | nil : Inserts P [] []
  | keep (x : α) {xs ys : List α} (h : Inserts P xs ys) : Inserts P (x :: xs) (x :: ys)
  | insert {x : α} (hx : P x) {xs ys : List α} (h : Inserts P xs ys) : Inserts P xs (x :: ys)

namespace Inserts

variable {α : Type} {P : α → Prop}

theorem refl (xs : List α) : Inserts P xs xs := by
  induction xs with
  | nil => exact .nil
  | cons x xs ih => exact .keep x ih

theorem mono {Q : α → Prop} (hPQ : ∀ x, P x → Q x) {xs ys : List α} (h : Inserts P xs ys) :
    Inserts Q xs ys := by
  induction h with
  | nil => exact .nil
  | keep x _ ih => exact .keep x ih
  | insert hx _ ih => exact .insert (hPQ _ hx) ih

/-- One item inserted. -/
theorem single {x : α} (hx : P x) (xs ys : List α) : Inserts P (xs ++ ys) (xs ++ x :: ys) := by
  induction xs with
  | nil => exact .insert hx (.refl ys)
  | cons y xs ih => exact .keep y ih

end Inserts

end CanBootloader.Lib
