/-
  Numbers in ASCII text: Python's `int(text, base)` and `'{:0wx}'.format(n)`.

  `int` accepts more than the digits: blanks around them, a sign, `0x` in base 16, and single
  underscores. `pyInt_hexField`: what `format` writes is read back.
-/
import Mathlib.Data.List.DropRight
import Mathlib.Tactic

namespace CanBootloader.Lib

/-! ## Reading -/

/-- The characters that `int` strips. -/
def isBlank (c : Char) : Bool := c ∈ [' ', '\t', '\n', '\x0b', '\x0c', '\r']

/-- The value of a digit; letters of both cases follow 9. -/
def digitValue (base : Nat) (c : Char) : Option Nat :=
  let value :=
    if c.isDigit then c.toNat - 48
    else if c.isLower then c.toNat - 97 + 10
    else if c.isUpper then c.toNat - 65 + 10
    else base
  if value < base then some value else none

/-- Digits with single underscores between them. A digit must follow if `need` is set. -/
def scanDigits (base : Nat) : Bool → Nat → List Char → Option Nat
  | need, acc, [] => if need then none else some acc
  | need, acc, c :: cs =>
      if c = '_' then
        if need then none else scanDigits base true acc cs
      else
        match digitValue base c with
        | none => none
        | some d => scanDigits base false (acc * base + d) cs

/-- The sign, and what is behind it. -/
def splitSign : List Char → Bool × List Char
  | [] => (false, [])
  | c :: cs => if c = '-' then (true, cs) else if c = '+' then (false, cs) else (false, c :: cs)

/-- The prefix `0x`, which an underscore may follow. -/
def dropPrefix : List Char → List Char
  | c :: x :: cs =>
      if c = '0' ∧ (x = 'x' ∨ x = 'X') then
        if cs.head? = some '_' then cs.tail else cs
      else c :: x :: cs
  | cs => cs

/-- `int(text, base)`; `none` when it raises. -/
def pyInt (base : Nat) (text : List Char) : Option Int :=
  let (negative, digits) := splitSign ((text.dropWhile isBlank).rdropWhile isBlank)
  let digits := if base = 16 then dropPrefix digits else digits
  (scanDigits base true 0 digits).map fun n => if negative then -(n : Int) else n

/-! ## Writing -/

/-- `'{:0wx}'.format(n)`. -/
def hexField (width n : Nat) : List Char := (Nat.toDigits 16 n).leftpad width '0'

theorem hexField_zero (n : Nat) : hexField 0 n = Nat.toDigits 16 n := by
  simp [hexField, List.leftpad]

theorem hexField_length {width n : Nat} (hpos : 0 < width) (h : n < 16 ^ width) :
    (hexField width n).length = width := by
  have hlen := (Nat.length_toDigits_le_iff (by decide) hpos).mpr h
  rw [hexField, List.length_leftpad]
  omega

/-- A hexadecimal digit as `format` writes it. -/
def IsHexChar (c : Char) : Prop := ∃ d < 16, c = Nat.digitChar d

theorem isHexChar_zero : IsHexChar '0' := ⟨0, by decide, rfl⟩

theorem isHexChar_toDigits (n : Nat) : ∀ c ∈ Nat.toDigits 16 n, IsHexChar c := by
  induction n using Nat.strong_induction_on with
  | _ n ih =>
    intro c hc
    by_cases hn : n < 16
    · rw [Nat.toDigits_of_lt_base hn, List.mem_singleton] at hc
      exact ⟨n, hn, hc⟩
    · rw [Nat.toDigits_of_base_le (by decide) (by omega), List.mem_append,
        List.mem_singleton] at hc
      rcases hc with hc | hc
      · exact ih (n / 16) (by omega) c hc
      · exact ⟨n % 16, by omega, hc⟩

theorem isHexChar_hexField (width n : Nat) : ∀ c ∈ hexField width n, IsHexChar c := by
  intro c hc
  rw [hexField, List.leftpad, List.mem_append] at hc
  rcases hc with hc | hc
  · rw [List.eq_of_mem_replicate hc]
    exact isHexChar_zero
  · exact isHexChar_toDigits n c hc

/-! ## Reading back -/

theorem digitValue_digitChar : ∀ d < 16, digitValue 16 (Nat.digitChar d) = some d := by decide

/-- The other characters that `int` knows are no digits. -/
theorem IsHexChar.plain {c : Char} (h : IsHexChar c) :
    isBlank c = false ∧ c ≠ '_' ∧ c ≠ '-' ∧ c ≠ '+' ∧ c ≠ 'x' ∧ c ≠ 'X' := by
  obtain ⟨d, hd, rfl⟩ := h
  interval_cases d <;> decide

theorem scanDigits_digitChar (need : Bool) (acc : Nat) {d : Nat} (hd : d < 16)
    (cs : List Char) :
    scanDigits 16 need acc (Nat.digitChar d :: cs) = scanDigits 16 false (acc * 16 + d) cs := by
  have hplain := (IsHexChar.plain ⟨d, hd, rfl⟩).2.1
  rw [scanDigits, if_neg hplain, digitValue_digitChar d hd]

/-- The digits of a number, digit by digit from the left. -/
theorem scanDigits_toDigits (n : Nat) : ∀ (need : Bool) (acc : Nat) (cs : List Char),
    scanDigits 16 need acc (Nat.toDigits 16 n ++ cs) =
      scanDigits 16 false (acc * 16 ^ (Nat.toDigits 16 n).length + n) cs := by
  induction n using Nat.strong_induction_on with
  | _ n ih =>
    intro need acc cs
    by_cases hn : n < 16
    · rw [Nat.toDigits_of_lt_base hn]
      simp only [List.cons_append, List.nil_append, List.length_singleton, pow_one]
      exact scanDigits_digitChar need acc hn cs
    · rw [Nat.toDigits_of_base_le (by decide) (by omega), List.append_assoc,
        ih (n / 16) (by omega), List.singleton_append, scanDigits_digitChar _ _ (by omega),
        List.length_append, List.length_singleton, pow_succ]
      congr 1
      have hsplit := Nat.div_add_mod n 16
      rw [Nat.add_mul, Nat.mul_assoc]
      omega

/-- Zeros in front do not count. -/
theorem scanDigits_zeros (k n : Nat) : ∀ need : Bool,
    scanDigits 16 need 0 (List.replicate k '0' ++ Nat.toDigits 16 n) = some n := by
  induction k with
  | zero =>
      intro need
      have hscan := scanDigits_toDigits n need 0 []
      rw [List.append_nil] at hscan
      rw [List.replicate_zero, List.nil_append, hscan, Nat.zero_mul, Nat.zero_add]
      rfl
  | succ k ih =>
      intro need
      have hzero := scanDigits_digitChar need 0 (d := 0) (by decide)
        (List.replicate k '0' ++ Nat.toDigits 16 n)
      rw [List.replicate_succ, List.cons_append]
      exact hzero.trans (ih false)

/-- Text of hexadecimal digits is scanned as it is. -/
theorem pyInt_of_hex {text : List Char} (h : ∀ c ∈ text, IsHexChar c) :
    pyInt 16 text = (scanDigits 16 true 0 text).map fun n => (n : Int) := by
  have hblank : ∀ c ∈ text, isBlank c = false := fun c hc => (h c hc).plain.1
  have hleft : text.dropWhile isBlank = text :=
    List.dropWhile_eq_self_iff.mpr fun hl => by simp [hblank _ (List.getElem_mem hl)]
  have hright : text.rdropWhile isBlank = text :=
    List.rdropWhile_eq_self_iff.mpr fun hl => by simp [hblank _ (List.getLast_mem hl)]
  have hsign : splitSign text = (false, text) := by
    cases text with
    | nil => rfl
    | cons c cs =>
        obtain ⟨-, -, hminus, hplus, -⟩ := (h c List.mem_cons_self).plain
        rw [splitSign, if_neg hminus, if_neg hplus]
  have hprefix : dropPrefix text = text := by
    match text, h with
    | [], _ => rfl
    | [_], _ => rfl
    | c :: x :: cs, h =>
        obtain ⟨-, -, -, -, hx, hX⟩ := (h x (by simp)).plain
        rw [dropPrefix, if_neg]
        exact fun hc => hc.2.elim hx hX
  rw [pyInt, hleft, hright, hsign]
  simp only [if_true, hprefix, Bool.false_eq_true, if_false]

/-- `int(format(n, '0wx'), 16)` is `n`. -/
theorem pyInt_hexField (width n : Nat) : pyInt 16 (hexField width n) = some (n : Int) := by
  rw [pyInt_of_hex (isHexChar_hexField width n), hexField, List.leftpad, scanDigits_zeros]
  rfl

/-- A decimal digit. -/
theorem pyInt_digit : ∀ d < 10, pyInt 10 [Nat.digitChar d] = some (d : Int) := by decide

end CanBootloader.Lib
