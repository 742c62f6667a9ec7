import CoChange.Fault
import CoChange.Hunk
import CoChange.Hunk.Header
import CoChange.Hunk.NewSide
import CoChange.Text.Lines

/-!
# Reading diffs

A diff is read line by line. Between hunks, a line that starts with `diff ` ends the file section,
`+++ ` opens one, and `@@` starts a hunk of it; other lines do not matter. A hunk announces how
many lines of both sides its body has, and exactly these are taken as body, whatever they hold.
-/

namespace CoChange.Hunk

/-- The file section that a line belongs to. -/
inductive Section where
  | outside
  | gone
  | file (name : String)
deriving DecidableEq, Repr

/-- The section that the file behind `+++ ` opens. -/
def Section.ofNewSide : Option String → Section
  | none => .gone
  | some name => .file name

/-- The lines of each side that the body of a hunk still owes. -/
structure Owed where
  old : Nat
  new : Nat
deriving DecidableEq, Repr

/-- Nothing is owed between hunks. -/
def Owed.nothing : Owed := ⟨0, 0⟩

def takeOne : Nat → Except DiffFlaw Nat
  | 0 => .error .bodyTooLong
  | n + 1 => .ok n

/-- Takes a line from the body of a hunk. A line without characters counts as context. -/
def Owed.take (owed : Owed) (line : List Char) : Except DiffFlaw Owed :=
  match line with
  | '+' :: _ => (takeOne owed.new).map ({ owed with new := · })
  | '-' :: _ => (takeOne owed.old).map ({ owed with old := · })
  | [] | ' ' :: _ => do
    let old ← takeOne owed.old
    let new ← takeOne owed.new
    return ⟨old, new⟩
  | '\\' :: _ => .ok owed
  | _ => .error .strayBodyLine

/-- Where reading stands between two lines. -/
structure State where
  current : Section
  owed : Owed
deriving DecidableEq, Repr

def State.start : State := ⟨.outside, .nothing⟩

/-- The hunk that a header adds to a section. -/
def Section.hunk? (current : Section) (header : Header) : Option Hunk :=
  match current with
  | .file name => some ⟨name, header.span⟩
  | _ => none

def takeOutside (current : Section) (line : List Char) :
    Except DiffFlaw (State × Option Hunk) :=
  if ("diff ".toList.isPrefixOf line) then .ok (⟨.outside, .nothing⟩, none)
  else
    match "+++ ".toList.isPrefixOf? line with
    | some name => .ok (⟨.ofNewSide (newSide? name), .nothing⟩, none)
    | none =>
      if "@@".toList.isPrefixOf line then
        if current = .outside then .error .headerOutsideSection
        else
          (Header.read line).map fun header =>
            (⟨current, ⟨header.oldCount, header.newCount⟩⟩, current.hunk? header)
      else .ok (⟨current, .nothing⟩, none)

def State.take (state : State) (line : List Char) : Except DiffFlaw (State × Option Hunk) :=
  if state.owed = .nothing then takeOutside state.current line
  else (state.owed.take line).map fun owed => ({ state with owed }, none)

/-- The hunks of the lines that follow line `number`. -/
def readLines (state : State) (number : Nat) : List (List Char) → Except Fault (List Hunk)
  | [] =>
    if state.owed = .nothing then .ok [] else .error (.malformedDiff number .bodyUnfinished)
  | line :: rest =>
    match state.take line with
    | .error flaw => .error (.malformedDiff (number + 1) flaw)
    | .ok (next, hunk) => (readLines next (number + 1) rest).map (hunk.toList ++ ·)

/-- The hunks of a diff, in order. -/
def readDiff (text : String) : Except Fault (List Hunk) :=
  readLines .start 0 (Text.lines text.toList)

end CoChange.Hunk
