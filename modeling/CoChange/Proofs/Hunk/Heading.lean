import CoChange.Hunk.Header
import CoChange.Proofs.Outcome
import CoChange.Proofs.Text.Decimal
import CoChange.Text.Cut
import Mathlib.Data.List.TakeWhile

/-!
# The form of hunk headers

A header is the text `@@ -a,b +c,d @@` with anything behind it, where a count may be missing with
the comma before it (`HeaderText.Spells`). Its numbers are those that ASCII digits write, and all of
them, as well as the last line on the new side, have 64 bits (`Header.Heads`). Exactly such lines
are read as headers (`Header.read_eq_ok_iff`).
-/

namespace CoChange.Hunk

/-! ## The parts of a line -/

/-- A run of decimal digits of any script. -/
structure IsNumeral (digits : List Char) : Prop where
  filled : digits ≠ []
  decimal : ∀ c ∈ digits, Text.isDecimal c = true

/-- A count behind a comma, nothing for a count that is missing. -/
def countPart : Option (List Char) → List Char
  | none => []
  | some digits => ',' :: digits

/-- The lines that are spelled with the given runs of digits. -/
inductive HeaderText.Spells (text : HeaderText) : List Char → Prop
  | intro {oldStart trail : List Char} (oldStarts : IsNumeral oldStart)
      (oldCounts : ∀ digits ∈ text.oldCount, IsNumeral digits)
      (newStarts : IsNumeral text.newStart)
      (newCounts : ∀ digits ∈ text.newCount, IsNumeral digits) :
      Spells text ("@@ -".toList ++ oldStart ++ countPart text.oldCount ++ " +".toList ++
        text.newStart ++ countPart text.newCount ++ " @@".toList ++ trail)

theorem takeDigits?_eq_some_iff {text digits rest : List Char} :
    takeDigits? text = some (digits, rest) ↔
      IsNumeral digits ∧ text = digits ++ rest ∧ ∀ c ∈ rest.head?, Text.isDecimal c = false := by
  constructor
  · intro h
    unfold takeDigits? at h
    split at h
    · cases h
    · next filled =>
      cases h
      refine ⟨⟨filled, fun c mem => List.mem_takeWhile_imp mem⟩, ?_, ?_⟩
      · exact List.takeWhile_append_dropWhile.symm
      · intro c mem
        have stop := List.head?_dropWhile_not Text.isDecimal text
        rw [Option.mem_def.1 mem] at stop
        exact stop
  · rintro ⟨⟨filled, decimal⟩, rfl, stop⟩
    have nothing : rest.takeWhile Text.isDecimal = [] := by
      cases rest with
      | nil => rfl
      | cons c rest => exact List.takeWhile_cons_of_neg (by simp [stop c rfl])
    have everything : rest.dropWhile Text.isDecimal = rest := by
      cases rest with
      | nil => rfl
      | cons c rest => exact List.dropWhile_cons_of_neg (by simp [stop c rfl])
    unfold takeDigits?
    rw [List.takeWhile_append_of_pos decimal, List.dropWhile_append_of_pos decimal, nothing,
      everything, List.append_nil]
    cases digits with
    | nil => exact absurd rfl filled
    | cons c digits => rfl

/-- A run of digits with the count behind it is taken as far as it goes: here up to a space. -/
theorem takePair?_eq_some_iff {text first rest : List Char} {second : Option (List Char)} :
    takePair? text = some (first, second, ' ' :: rest) ↔
      IsNumeral first ∧ (∀ digits ∈ second, IsNumeral digits) ∧
        text = first ++ (countPart second ++ ' ' :: rest) := by
  -- Neither the space nor the comma behind a run can lengthen it.
  have space : ∀ c ∈ (' ' :: rest).head?, Text.isDecimal c = false := by
    rintro c ⟨⟩
    decide
  have comma (more : List Char) : ∀ c ∈ (',' :: more).head?, Text.isDecimal c = false := by
    rintro c ⟨⟩
    decide
  unfold takePair?
  simp only [Option.bind_eq_bind, Option.bind_eq_some_iff, Prod.exists]
  constructor
  · rintro ⟨digits, behind, taken, h⟩
    obtain ⟨numeral, rfl, -⟩ := takeDigits?_eq_some_iff.1 taken
    split at h
    · next more =>
      obtain ⟨⟨count, tail⟩, counted, eq⟩ := Option.bind_eq_some_iff.1 h
      obtain ⟨counts, rfl, -⟩ := takeDigits?_eq_some_iff.1 counted
      cases eq
      refine ⟨numeral, fun digits eq => ?_, rfl⟩
      cases eq
      exact counts
    · cases h
      exact ⟨numeral, fun digits eq => (nomatch eq), rfl⟩
  · rintro ⟨numeral, counts, rfl⟩
    cases second with
    | none =>
      exact ⟨first, ' ' :: rest, takeDigits?_eq_some_iff.2 ⟨numeral, rfl, space⟩, rfl⟩
    | some digits =>
      refine ⟨first, ',' :: (digits ++ ' ' :: rest), ?_, ?_⟩
      · exact takeDigits?_eq_some_iff.2 ⟨numeral, rfl, comma _⟩
      · have counted := takeDigits?_eq_some_iff.2 ⟨counts digits rfl, rfl, space⟩
        exact Option.bind_eq_some_iff.2 ⟨_, counted, rfl⟩

theorem HeaderText.read?_eq_some_iff {line : List Char} {text : HeaderText} :
    HeaderText.read? line = some text ↔ text.Spells line := by
  unfold HeaderText.read?
  simp only [Option.bind_eq_bind, Option.bind_eq_some_iff, Prod.exists,
    Text.isPrefixOf?_eq_some_iff]
  constructor
  · rintro ⟨_, rfl, oldStart, oldCount, _, old, _, rfl, newStart, newCount, _, new, trail, rfl, eq⟩
    cases eq
    obtain ⟨start, oldCounts, rfl⟩ := takePair?_eq_some_iff.1 old
    obtain ⟨newStarts, newCounts, rfl⟩ := takePair?_eq_some_iff.1 new
    have spelled : HeaderText.Spells ⟨oldCount, newStart, newCount⟩
        ("@@ -".toList ++ oldStart ++ countPart oldCount ++ " +".toList ++ newStart ++
          countPart newCount ++ " @@".toList ++ trail) :=
      .intro start oldCounts newStarts newCounts
    simp only [List.append_assoc] at spelled
    exact spelled
  · rintro ⟨start, oldCounts, newStarts, newCounts⟩
    simp only [List.append_assoc]
    exact ⟨_, rfl, _, _, _, takePair?_eq_some_iff.2 ⟨start, oldCounts, rfl⟩, _, rfl,
      _, _, _, takePair?_eq_some_iff.2 ⟨newStarts, newCounts, rfl⟩, _, rfl, rfl⟩

/-! ## The numbers of a line -/

/-- A number of 64 bits, written with ASCII digits. -/
structure Writes (digits : List Char) (n : Nat) : Prop where
  ascii : ∀ c ∈ digits, c.isDigit = true
  value : n = Text.valueOf digits
  small : n < Nat.pow 2 64

/-- A count that may be missing. It is one then. -/
def WritesCount : Option (List Char) → Nat → Prop
  | none, n => n = 1
  | some digits, n => Writes digits n

/-- The lines that are the given header. -/
inductive Header.Heads (header : Header) : List Char → Prop
  | intro {text : HeaderText} {line : List Char} (spelled : text.Spells line)
      (oldCount : WritesCount text.oldCount header.oldCount)
      (newStart : Writes text.newStart header.newStart)
      (newCount : WritesCount text.newCount header.newCount)
      (last : 0 < header.newCount → header.newStart + (header.newCount - 1) < Nat.pow 2 64) :
      Heads header line

theorem le_maxLine_iff {n : Nat} : n ≤ maxLine ↔ n < Nat.pow 2 64 :=
  Nat.le_sub_one_iff_lt (by decide)

theorem readNumber_eq_ok_iff {digits : List Char} (h : IsNumeral digits) {n : Nat} :
    readNumber digits = .ok n ↔ Writes digits n := by
  have read : Text.decimal? digits = some n ↔
      (∀ c ∈ digits, c.isDigit = true) ∧ n = Text.valueOf digits := by
    rw [Text.decimal?_eq_some_iff, and_iff_right h.filled]
  unfold readNumber
  constructor
  · intro eq
    split at eq
    · next m found =>
      split at eq
      · next small =>
        cases eq
        exact ⟨(read.1 found).1, (read.1 found).2, le_maxLine_iff.1 small⟩
      · cases eq
    · cases eq
  · rintro ⟨ascii, value, small⟩
    rw [read.2 ⟨ascii, value⟩]
    exact if_pos (le_maxLine_iff.2 small)

theorem readCount_eq_ok_iff {count : Option (List Char)} (h : ∀ digits ∈ count, IsNumeral digits)
    {n : Nat} : readCount count = .ok n ↔ WritesCount count n := by
  cases count with
  | none => simp only [readCount, WritesCount, Except.ok.injEq, eq_comm]
  | some digits => exact readNumber_eq_ok_iff (h digits rfl)

theorem Header.read_eq_ok_iff {line : List Char} {header : Header} :
    Header.read line = .ok header ↔ header.Heads line := by
  unfold Header.read
  constructor
  · intro h
    split at h
    · cases h
    · next text found =>
      have spelled := HeaderText.read?_eq_some_iff.1 found
      obtain ⟨-, oldCounts, newStarts, newCounts⟩ := spelled
      obtain ⟨oldCount, old, h⟩ := Outcome.bind_eq_ok_iff.1 h
      obtain ⟨newStart, start, h⟩ := Outcome.bind_eq_ok_iff.1 h
      obtain ⟨newCount, new, h⟩ := Outcome.bind_eq_ok_iff.1 h
      split at h
      · cases h
      · next fits =>
        cases h
        refine .intro (HeaderText.read?_eq_some_iff.1 found)
          ((readCount_eq_ok_iff oldCounts).1 old) ((readNumber_eq_ok_iff newStarts).1 start)
          ((readCount_eq_ok_iff newCounts).1 new) fun filled => ?_
        refine le_maxLine_iff.1 (Nat.le_of_not_lt fun beyond => ?_)
        exact fits ⟨Nat.pos_iff_ne_zero.1 filled, beyond⟩
  · rintro ⟨spelled, old, start, new, last⟩
    rw [HeaderText.read?_eq_some_iff.2 spelled]
    obtain ⟨-, oldCounts, newStarts, newCounts⟩ := spelled
    refine Outcome.bind_eq_ok_iff.2 ⟨_, (readCount_eq_ok_iff oldCounts).2 old, ?_⟩
    refine Outcome.bind_eq_ok_iff.2 ⟨_, (readNumber_eq_ok_iff newStarts).2 start, ?_⟩
    refine Outcome.bind_eq_ok_iff.2 ⟨_, (readCount_eq_ok_iff newCounts).2 new, ?_⟩
    refine if_neg ?_
    rintro ⟨filled, beyond⟩
    have small := le_maxLine_iff.2 (last (Nat.pos_iff_ne_zero.2 filled))
    exact absurd small (Nat.not_le_of_gt beyond)

end CoChange.Hunk
