import CoChange.Fault
import CoChange.Span
import CoChange.Text.Digit

/-!
# Hunk headers

A hunk header gives a start and a count of lines for the old and for the new side, as in
`@@ -3,2 +4 @@`; a count that is missing is one. Digits of any script have the form of a number,
but only ASCII digits are read, and only numbers of 64 bits. The start on the old side is not
read.
-/

namespace CoChange.Hunk

/-- The largest line number. -/
def maxLine : Nat := Nat.pow 2 64 - 1

/-- The runs of digits of a header, a missing count as `none`. -/
structure HeaderText where
  oldCount : Option (List Char)
  newStart : List Char
  newCount : Option (List Char)
deriving DecidableEq, Repr

/-- A non-empty run of decimal digits, and what follows it. -/
def takeDigits? (text : List Char) : Option (List Char × List Char) :=
  match text.takeWhile Text.isDecimal with
  | [] => none
  | digits => some (digits, text.dropWhile Text.isDecimal)

/-- A run of digits with an optional second one behind a comma, and what follows. -/
def takePair? (text : List Char) : Option (List Char × Option (List Char) × List Char) := do
  let (first, rest) ← takeDigits? text
  match rest with
  | ',' :: rest =>
    let (second, rest) ← takeDigits? rest
    return (first, some second, rest)
  | _ => return (first, none, rest)

/-- The parts of a line that has the form of a header; anything may follow it. -/
def HeaderText.read? (line : List Char) : Option HeaderText := do
  let rest ← "@@ -".toList.isPrefixOf? line
  let (_, oldCount, rest) ← takePair? rest
  let rest ← " +".toList.isPrefixOf? rest
  let (newStart, newCount, rest) ← takePair? rest
  let _ ← " @@".toList.isPrefixOf? rest
  return ⟨oldCount, newStart, newCount⟩

/-- The counts of a header and the first line on the new side. -/
structure Header where
  oldCount : Nat
  newStart : Nat
  newCount : Nat
deriving DecidableEq, Repr

def readNumber (digits : List Char) : Except DiffFlaw Nat :=
  match Text.decimal? digits with
  | some n => if n ≤ maxLine then .ok n else .error .numberOutOfRange
  | none => .error .numberOutOfRange

/-- A count that may be missing. -/
def readCount : Option (List Char) → Except DiffFlaw Nat
  | none => .ok 1
  | some digits => readNumber digits

/-- The header that a line writes. The last line on the new side has to be a line number too. -/
def Header.read (line : List Char) : Except DiffFlaw Header :=
  match HeaderText.read? line with
  | none => .error .badHeader
  | some text => do
    let oldCount ← readCount text.oldCount
    let newStart ← readNumber text.newStart
    let newCount ← readCount text.newCount
    if newCount ≠ 0 ∧ newStart + (newCount - 1) > maxLine then .error .numberOutOfRange
    else return ⟨oldCount, newStart, newCount⟩

/-- The lines on the new side. A hunk that leaves none is pinned to the line that it follows, or to
the first line. -/
def Header.span (header : Header) : Span :=
  if header.newCount = 0 then ⟨max header.newStart 1, max header.newStart 1⟩
  else ⟨header.newStart, header.newStart + (header.newCount - 1)⟩

theorem Header.span_first_le_last (header : Header) : header.span.first ≤ header.span.last := by
  unfold Header.span
  split
  · exact Nat.le_refl _
  · exact Nat.le_add_right _ _

end CoChange.Hunk
