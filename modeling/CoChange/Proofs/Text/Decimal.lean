import CoChange.Text.Digit
import Mathlib.Data.Nat.Digits.Defs

/-!
# Numbers in base ten

A run of ASCII digits is read as the number that it writes in base ten, and nothing else is read as
a number (`decimal?_eq_some_iff`).
-/

namespace CoChange.Text

/-- How far a character stands behind the digit zero. -/
def digitValue (c : Char) : Nat := c.toNat - '0'.toNat

/-- The number that digits write in base ten, the last one being worth least. -/
def valueOf (digits : List Char) : Nat := Nat.ofDigits 10 (digits.reverse.map digitValue)

theorem digitValue?_eq_some_iff {c : Char} {d : Nat} :
    digitValue? c = some d ↔ c.isDigit = true ∧ d = digitValue c := by
  have digit : ('0' ≤ c ∧ c ≤ '9') ↔ c.isDigit = true := by
    simp only [Char.isDigit, Bool.and_eq_true, decide_eq_true_eq, Char.le_def, ge_iff_le]
  unfold digitValue?
  split
  · next h => simp [digit.1 h, digitValue, eq_comm]
  · next h => simp [mt digit.2 h]

theorem valueOf_nil : valueOf [] = 0 := rfl

theorem valueOf_cons (c : Char) (digits : List Char) :
    valueOf (c :: digits) = 10 ^ digits.length * digitValue c + valueOf digits := by
  unfold valueOf
  rw [List.reverse_cons, List.map_append, Nat.ofDigits_append, List.length_map,
    List.length_reverse, List.map_singleton, Nat.ofDigits_singleton, Nat.add_comm]

theorem decimalFrom?_eq_some_iff {start n : Nat} {digits : List Char} :
    decimalFrom? start digits = some n ↔
      (∀ c ∈ digits, c.isDigit = true) ∧ n = 10 ^ digits.length * start + valueOf digits := by
  induction digits generalizing start with
  | nil =>
    rw [decimalFrom?, Option.some.injEq, valueOf_nil, List.length_nil, pow_zero, Nat.one_mul,
      Nat.add_zero, eq_comm]
    simp only [List.not_mem_nil, false_implies, implies_true, true_and]
  | cons c rest ih =>
    simp only [decimalFrom?, Option.bind_eq_some_iff, digitValue?_eq_some_iff, ih, valueOf_cons,
      List.forall_mem_cons, List.length_cons, pow_succ]
    constructor
    · rintro ⟨d, ⟨digit, rfl⟩, digits, rfl⟩
      exact ⟨⟨digit, digits⟩, by ring⟩
    · rintro ⟨⟨digit, digits⟩, rfl⟩
      exact ⟨_, ⟨digit, rfl⟩, digits, by ring⟩

/-- A text is read as a number when it is a run of ASCII digits that writes it. -/
theorem decimal?_eq_some_iff {digits : List Char} {n : Nat} :
    decimal? digits = some n ↔
      digits ≠ [] ∧ (∀ c ∈ digits, c.isDigit = true) ∧ n = valueOf digits := by
  unfold decimal?
  split
  · next h => simp [List.isEmpty_iff.1 h]
  · next h =>
    rw [decimalFrom?_eq_some_iff, Nat.mul_zero, Nat.zero_add]
    exact (and_iff_right (mt List.isEmpty_iff.2 h)).symm

end CoChange.Text
