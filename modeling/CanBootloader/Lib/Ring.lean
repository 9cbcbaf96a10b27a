/-
  Ring buffers with one slot free.

  A ring of `N` slots is an array with two indices, `pop` and `push`. It holds the items from
  `pop` up to, but not including, `push` (`contents`). It is empty when the indices are equal and
  full when `push` is one behind `pop`, so it never holds more than `N - 1` items.

  * `contents_push`: storing at `push` and advancing it appends an item, unless the ring is full.
  * `contents_pop`: advancing `pop` drops the first item, unless the ring is empty.
-/
import Mathlib.Tactic

namespace CanBootloader.Lib.Ring

variable {α : Type} {N pop push : Nat}

/-- The index behind an index. -/
def next (N i : Nat) : Nat := (i + 1) % N

/-- The number of items between the indices. -/
def count (N pop push : Nat) : Nat := (push + N - pop) % N

/-- The items held, oldest first. -/
def contents (N : Nat) (slots : Nat → α) (pop push : Nat) : List α :=
  (List.range (count N pop push)).map fun k => slots ((pop + k) % N)

/-! ## Indices -/

theorem mod_of_lt_two_mul {a N : Nat} (h : a < 2 * N) : a % N = if a < N then a else a - N := by
  split_ifs with hlt
  · exact Nat.mod_eq_of_lt hlt
  · rw [Nat.mod_eq_sub_mod (by omega), Nat.mod_eq_of_lt (by omega)]

theorem next_eq (h : pop < N) : next N pop = if pop + 1 < N then pop + 1 else 0 := by
  rw [next, mod_of_lt_two_mul (by omega)]
  split_ifs
  · rfl
  · omega

theorem next_lt (h : pop < N) : next N pop < N := Nat.mod_lt _ (by omega)

theorem count_eq (hpop : pop < N) (hpush : push < N) :
    count N pop push = if pop ≤ push then push - pop else push + N - pop := by
  rw [count, mod_of_lt_two_mul (by omega)]
  split_ifs <;> omega

theorem count_lt (hpop : pop < N) : count N pop push < N := Nat.mod_lt _ (by omega)

theorem count_eq_zero_iff (hpop : pop < N) (hpush : push < N) :
    count N pop push = 0 ↔ pop = push := by
  rw [count_eq hpop hpush]
  split_ifs
  · omega
  · omega

/-- A ring that is not full has one more item when `push` has advanced. -/
theorem count_push (hpop : pop < N) (hpush : push < N) (hfull : next N push ≠ pop) :
    count N pop (next N push) = count N pop push + 1 := by
  rw [count_eq hpop (next_lt hpush), count_eq hpop hpush]
  rw [next_eq hpush] at hfull ⊢
  split_ifs at hfull ⊢ <;> omega

/-- A ring that is not empty has one item less when `pop` has advanced. -/
theorem count_pop (hpop : pop < N) (hpush : push < N) (hne : pop ≠ push) :
    count N pop push = count N (next N pop) push + 1 := by
  rw [count_eq hpop hpush, count_eq (next_lt hpop) hpush, next_eq hpop]
  split_ifs <;> omega

/-! ## Items -/

variable {slots : Nat → α}

@[simp] theorem contents_length : (contents N slots pop push).length = count N pop push := by
  simp [contents]

theorem contents_eq_nil_iff (hpop : pop < N) (hpush : push < N) :
    contents N slots pop push = [] ↔ pop = push := by
  rw [← List.length_eq_zero_iff, contents_length, count_eq_zero_iff hpop hpush]

/-- The slot `push` holds no item. -/
theorem index_ne_push (hpop : pop < N) (hpush : push < N) {k : Nat}
    (hk : k < count N pop push) : (pop + k) % N ≠ push := by
  rw [count_eq hpop hpush] at hk
  rw [mod_of_lt_two_mul (by split_ifs at hk <;> omega)]
  split_ifs at hk ⊢ <;> omega

/-- Storing at `push` appends an item once `push` is advanced. -/
theorem contents_push (slots : Nat → α) (hpop : pop < N) (hpush : push < N)
    (hfull : next N push ≠ pop) (x : α) :
    contents N (Function.update slots push x) pop (next N push) =
      contents N slots pop push ++ [x] := by
  have hlast : (pop + count N pop push) % N = push := by
    rw [count_eq hpop hpush]
    split_ifs with hle
    · rw [Nat.add_sub_cancel' hle, Nat.mod_eq_of_lt hpush]
    · rw [show pop + (push + N - pop) = push + N by omega, Nat.add_mod_right,
        Nat.mod_eq_of_lt hpush]
  unfold contents
  rw [count_push hpop hpush hfull, List.range_succ, List.map_append, List.map_singleton, hlast,
    Function.update_self]
  congr 1
  apply List.map_congr_left
  intro k hk
  exact Function.update_of_ne (index_ne_push hpop hpush (List.mem_range.mp hk)) _ _

/-- The first item is the one at `pop`, and the others are held when `pop` is advanced. -/
theorem contents_pop (slots : Nat → α) (hpop : pop < N) (hpush : push < N) (hne : pop ≠ push) :
    contents N slots pop push = slots pop :: contents N slots (next N pop) push := by
  unfold contents
  rw [count_pop hpop hpush hne, List.range_succ_eq_map, List.map_cons, Nat.add_zero,
    Nat.mod_eq_of_lt hpop, List.map_map]
  congr 1
  apply List.map_congr_left
  intro k _
  rw [Function.comp_apply, next, Nat.mod_add_mod]
  congr 2
  omega

end CanBootloader.Lib.Ring
