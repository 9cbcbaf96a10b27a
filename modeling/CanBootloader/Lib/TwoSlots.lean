/-
  A value kept in two slots, each of which may be unusable.

  The first usable slot is the one read. A save rewrites both slots, one after the other; a slot
  is unusable while it is rewritten. It begins with the first slot unless that is the only
  usable one (`order`), and `saveStates` lists what a save cut at any point can leave behind.

  A save that is cut leaves the old or the new value to be read (`load_of_not_stale`), except
  where the second slot holds a third value (`Stale`, `load_of_stale`).
-/
import Mathlib.Tactic

namespace CanBootloader.Lib

inductive Slot where
  | first
  | second
  deriving DecidableEq, Repr

def Slot.other : Slot → Slot
  | first => second
  | second => first

theorem Slot.eq_or_eq_other (i j : Slot) : j = i ∨ j = i.other := by
  cases i <;> cases j <;> decide

/-- The contents of both slots; `none` is an unusable slot. -/
@[ext] structure Slots (α : Type) where
  first : Option α
  second : Option α

namespace Slots

variable {α : Type}

def get (s : Slots α) : Slot → Option α
  | .first => s.first
  | .second => s.second

def set (s : Slots α) (i : Slot) (x : Option α) : Slots α :=
  match i with
  | .first => { s with first := x }
  | .second => { s with second := x }

/-- The value read: the first slot's if it is usable. -/
def load (s : Slots α) : Option α := s.first.or s.second

/-- The slot a save begins with. -/
def order (s : Slots α) : Slot :=
  if s.second.isSome then .first else if s.first.isSome then .second else .first

/-- What a save of `v` can leave behind: the slots as they were, the first one being rewritten,
    that one done, the other one being rewritten, both done. -/
def saveStates (s : Slots α) (v : α) : List (Slots α) :=
  [s, s.set s.order none, s.set s.order (some v),
    (s.set s.order (some v)).set s.order.other none, ⟨some v, some v⟩]

/-- What rewriting one slot can leave behind. -/
def rewriteStates (s : Slots α) (i : Slot) (v : α) : List (Slots α) :=
  [s, s.set i none, s.set i (some v)]

theorem ext_get {s t : Slots α} (h : ∀ i, s.get i = t.get i) : s = t :=
  Slots.ext (h .first) (h .second)

@[simp] theorem get_set_self (s : Slots α) (i : Slot) (x : Option α) : (s.set i x).get i = x := by
  cases i with
  | first => rfl
  | second => rfl

@[simp] theorem get_set_other (s : Slots α) (i : Slot) (x : Option α) :
    (s.set i x).get i.other = s.get i.other := by
  cases i with
  | first => rfl
  | second => rfl

theorem set_set_same (s : Slots α) (i : Slot) (x y : Option α) :
    (s.set i x).set i y = s.set i y := by
  cases i with
  | first => rfl
  | second => rfl

theorem set_set_other (s : Slots α) (i : Slot) (v : α) :
    (s.set i (some v)).set i.other (some v) = ⟨some v, some v⟩ := by
  cases i with
  | first => rfl
  | second => rfl

/-! ## The states of a save -/

theorem mem_saveStates_of_first {s t : Slots α} {v : α} (h : t ∈ s.rewriteStates s.order v) :
    t ∈ s.saveStates v := by
  simp only [rewriteStates, saveStates, List.mem_cons, List.not_mem_nil, or_false] at h ⊢
  tauto

theorem mem_saveStates_of_second {s t : Slots α} {v : α}
    (h : t ∈ (s.set s.order (some v)).rewriteStates s.order.other v) : t ∈ s.saveStates v := by
  simp only [rewriteStates, set_set_other, saveStates, List.mem_cons, List.not_mem_nil,
    or_false] at h ⊢
  tauto

theorem last_mem_saveStates (s : Slots α) (v : α) : ⟨some v, some v⟩ ∈ s.saveStates v := by
  simp [saveStates]

/-- Both slots are usable, and the second one holds a value other than the one read and the one
    to be saved. -/
def Stale (s : Slots α) (v : α) : Prop :=
  ∃ x y, s.first = some x ∧ s.second = some y ∧ y ≠ x ∧ y ≠ v

theorem load_of_not_stale {s t : Slots α} {v : α} (hs : ¬ s.Stale v) (ht : t ∈ s.saveStates v) :
    t.load = s.load ∨ t.load = some v := by
  obtain ⟨a, b⟩ := s
  cases b with
  | some y =>
      simp only [saveStates, order, Option.isSome_some, if_true, set, Slot.other, List.mem_cons,
        List.not_mem_nil, or_false] at ht
      cases a with
      | none => rcases ht with rfl | rfl | rfl | rfl | rfl <;> simp [load]
      | some x =>
          rcases ht with rfl | rfl | rfl | rfl | rfl
          · simp [load]
          · -- the first slot is being rewritten: the second one is read
            have hy : y = x ∨ y = v := by
              by_contra hne
              exact hs ⟨x, y, rfl, rfl, not_or.mp hne⟩
            simpa [load] using hy
          · simp [load]
          · simp [load]
          · simp [load]
  | none =>
      cases a with
      | none =>
          simp only [saveStates, order, Option.isSome_none, set, Slot.other, List.mem_cons,
            List.not_mem_nil, or_false] at ht
          rcases ht with rfl | rfl | rfl | rfl | rfl <;> simp [load]
      | some x =>
          simp only [saveStates, order, Option.isSome_none, Option.isSome_some, if_true, set,
            Slot.other, List.mem_cons, List.not_mem_nil, or_false] at ht
          rcases ht with rfl | rfl | rfl | rfl | rfl <;> simp [load]

/-- What is read while the first of two stale slots is being rewritten. -/
theorem load_of_stale {s : Slots α} {v : α} (hs : s.Stale v) :
    ¬ ((s.set .first none).load = s.load ∨ (s.set .first none).load = some v) := by
  obtain ⟨a, b⟩ := s
  obtain ⟨x, y, rfl, rfl, hx, hv⟩ := hs
  simp [load, set, hx, hv]

end Slots

end CanBootloader.Lib
