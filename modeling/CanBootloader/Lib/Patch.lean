/-
  Last writer wins.

  A state is looked at through a family of cells. A patch says for each cell whether it is
  overwritten, and with what; `Describes` connects it with a function on states. Patches compose
  as their functions do, the later one first in each cell (`Describes.comp`, `Describes.foldl`),
  so functions that are described by patches are idempotent (`Describes.idempotent`), those of
  patches without a common cell commute (`Describes.commute`), and one whose patch leaves no cell
  out forgets the state before (`Describes.forgets_iff`).

  The patch of a list of keys with values is the last value for each key (`ofList_assign`).
-/
import Mathlib.Tactic

namespace CanBootloader.Lib

/-- The new contents of some cells. -/
abbrev Patch {ι : Type} (γ : ι → Type) : Type := (i : ι) → Option (γ i)

namespace Patch

variable {ι σ α : Type} {γ : ι → Type}

def empty : Patch γ := fun _ => none

/-- `a`, and then `b`. -/
def andThen (a b : Patch γ) : Patch γ := fun i => (b i).or (a i)

/-- A list of patches, in order. -/
def ofList (l : List (Patch γ)) : Patch γ := l.foldl andThen empty

theorem ofList_append (l : List (Patch γ)) (a : Patch γ) :
    ofList (l ++ [a]) = (ofList l).andThen a := by
  rw [ofList, List.foldl_append]
  rfl

/-- A cell of a list that no patch of it overwrites. -/
theorem ofList_eq_none {l : List (Patch γ)} {i : ι} (h : ∀ a ∈ l, a i = none) :
    ofList l i = none := by
  induction l using List.reverseRecOn with
  | nil => rfl
  | append_singleton l a ih =>
      have hlast := h a (by simp)
      have hfront := ih fun b hb => h b (by simp [hb])
      rw [ofList_append, andThen, hlast, hfront]
      rfl

/-! ## Functions -/

/-- Seen through the cells, the function overwrites what the patch says. -/
def Describes (π : (i : ι) → σ → γ i) (a : Patch γ) (f : σ → σ) : Prop :=
  ∀ s i, π i (f s) = (a i).getD (π i s)

variable {π : (i : ι) → σ → γ i} {a b : Patch γ} {f g : σ → σ}

theorem Describes.id : Describes π empty (fun s => s) := fun _ _ => rfl

theorem Describes.comp (hf : Describes π a f) (hg : Describes π b g) :
    Describes π (a.andThen b) (fun s => g (f s)) := by
  intro s i
  rw [hg, hf, andThen]
  cases b i with
  | none => rfl
  | some x => rfl

/-- A loop whose rounds are described. -/
theorem Describes.foldl {patch : α → Patch γ} {step : σ → α → σ} (l : List α)
    (h : ∀ x ∈ l, Describes π (patch x) (step · x)) :
    Describes π (ofList (l.map patch)) (fun s => l.foldl step s) := by
  induction l using List.reverseRecOn with
  | nil => exact Describes.id
  | append_singleton l x ih =>
      have hfront := ih fun y hy => h y (by simp [hy])
      have hlast := h x (by simp)
      simp only [List.map_append, List.map_singleton, ofList_append, List.foldl_append]
      exact hfront.comp hlast

/-- The cells show the whole state. -/
def Separates (π : (i : ι) → σ → γ i) : Prop := ∀ s t, (∀ i, π i s = π i t) → s = t

theorem Describes.idempotent (hπ : Separates π) (h : Describes π a f) (s : σ) :
    f (f s) = f s := by
  apply hπ
  intro i
  rw [h, h]
  cases a i with
  | none => rfl
  | some x => rfl

theorem Describes.commute (hπ : Separates π) (hf : Describes π a f) (hg : Describes π b g)
    (hdisjoint : ∀ i, a i = none ∨ b i = none) (s : σ) : f (g s) = g (f s) := by
  apply hπ
  intro i
  rw [hf, hg, hg, hf]
  rcases hdisjoint i with h | h
  · rw [h]
    rfl
  · rw [h]
    rfl

/-- What is seen afterwards is the same from every state exactly if each cell is overwritten. -/
theorem Describes.forgets_iff (h : Describes π a f) (hvaries : ∀ i, ∃ s t, π i s ≠ π i t) :
    (∀ s t i, π i (f s) = π i (f t)) ↔ ∀ i, a i ≠ none := by
  constructor
  · intro hall i hnone
    obtain ⟨s, t, hne⟩ := hvaries i
    have hsame := hall s t i
    rw [h, h, hnone] at hsame
    exact hne hsame
  · intro hall s t i
    obtain ⟨x, hx⟩ := Option.ne_none_iff_exists'.mp (hall i)
    rw [h, h, hx]
    rfl

/-! ## Assignments -/

variable {κ β : Type} [DecidableEq κ]

/-- One key gets a value. -/
def assign (k : κ) (v : β) : Patch fun _ : κ => β := fun k' => if k' = k then some v else none

/-- The last value in the list for a key. -/
def lastFor (l : List (κ × β)) (k : κ) : Option β := l.reverse.lookup k

theorem lastFor_eq_none {l : List (κ × β)} {k : κ} :
    lastFor l k = none ↔ ∀ x ∈ l, x.1 ≠ k := by
  simp only [lastFor, List.lookup_eq_none_iff, List.mem_reverse, bne_iff_ne]
  exact ⟨fun h x hx => (h x hx).symm, fun h x hx => (h x hx).symm⟩

theorem lastFor_append (l m : List (κ × β)) :
    lastFor (l ++ m) = andThen (γ := fun _ => β) (lastFor l) (lastFor m) := by
  funext k
  rw [lastFor, List.reverse_append, List.lookup_append]
  rfl

theorem lastFor_singleton (k : κ) (v : β) : lastFor [(k, v)] = assign k v := by
  funext k'
  rw [lastFor, List.reverse_singleton, List.lookup_cons, assign]
  by_cases hk : k' = k
  · simp [hk]
  · rw [if_neg hk, beq_eq_false_iff_ne.mpr hk, List.lookup_nil]

theorem ofList_assign (l : List (κ × β)) :
    ofList (l.map fun x => assign x.1 x.2) = lastFor l := by
  funext k
  induction l using List.reverseRecOn with
  | nil => rfl
  | append_singleton l x ih =>
      rw [lastFor] at ih ⊢
      rw [List.reverse_append, List.reverse_singleton, List.singleton_append, List.lookup_cons,
        ← ih, List.map_append, List.map_singleton, ofList_append, andThen, assign]
      by_cases hk : k = x.1
      · simp [hk]
      · rw [if_neg hk, Option.none_or, beq_eq_false_iff_ne.mpr hk]

end Patch

end CanBootloader.Lib
