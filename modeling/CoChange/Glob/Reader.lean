import CoChange.Glob

/-!
# Reading globs

A pattern is read from left to right. Groups in braces may stand in each other, so what is open
is a stack of groups, each with its finished branches and the parts of the branch being read. Two
stars stand for directories only between slashes and the ends of the pattern or of a branch.
-/

namespace CoChange.Glob

inductive Flaw where
  | unclosedClass
  | badRange (low high : Char)
  | unclosedGroup
  | unopenedGroup
  | danglingEscape
deriving DecidableEq, Repr

def Flaw.text : Flaw → String
  | .unclosedClass => "unclosed character class; missing ']'"
  | .badRange low high =>
    "invalid range; '" ++ low.toString ++ "' > '" ++ high.toString ++ "'"
  | .unclosedGroup =>
    "unclosed alternate group; missing '\x7d' (maybe escape '\x7b' with '[\x7b]'?)"
  | .unopenedGroup =>
    "unopened alternate group; missing '\x7b' (maybe escape '\x7d' with '[\x7d]'?)"
  | .danglingEscape => "dangling '\\'"

/-! ## Sets of bytes -/

/-- The ranges of a set with the last one ended at `high`, the last range first. -/
def endRange (high : Char) : List (Char × Char) → Except Flaw (List (Char × Char))
  | [] => .ok [(high, high)]
  | (low, _) :: earlier =>
    if high < low then .error (.badRange low high) else .ok ((low, high) :: earlier)

/-- The items of a set up to its closing bracket. `start` holds before the first item, where a
bracket and a dash stand for themselves; `isOpen` holds behind the dash of a range. The ranges read
so far come last first. -/
def setItems (start isOpen : Bool) (ranges : List (Char × Char)) (text : List Char) :
    Except Flaw (List (Char × Char) × { rest : List Char // rest.length < text.length }) :=
  match text with
  | [] => .error .unclosedClass
  | c :: rest =>
    let next (isOpen : Bool) (ranges : List (Char × Char)) :
        Except Flaw (List (Char × Char) × { rest' : List Char // rest'.length < rest.length + 1 }) :=
      (setItems false isOpen ranges rest).map fun (all, r) =>
        (all, ⟨r.1, Nat.lt_succ_of_lt r.2⟩)
    if c = ']' ∧ !start then
      .ok ((if isOpen then ('-', '-') :: ranges else ranges).reverse, ⟨rest, by simp⟩)
    else if isOpen then (endRange c ranges).bind (next false)
    else if c = '-' ∧ !start then next true ranges
    else next false ((c, c) :: ranges)

/-- Whether a set starts with a mark that takes the bytes outside of it. -/
def isNegated (text : List Char) : Bool := text.head? == some '!' || text.head? == some '^'

/-- A set behind its opening bracket. -/
def readSet (text : List Char) :
    Except Flaw (Part × { rest : List Char // rest.length ≤ text.length }) :=
  let items := if isNegated text then text.tail else text
  have shorter : items.length ≤ text.length := by
    dsimp only [items]
    split <;> simp
  (setItems true false [] items).map fun (ranges, r) =>
    (.oneOf (isNegated text) ranges, ⟨r.1, Nat.le_trans (Nat.le_of_lt r.2) shorter⟩)

/-! ## Groups -/

/-- A group being read: the branches before, and the parts of the branch being read, both with the
last one first. -/
structure Level where
  branches : List (List Part)
  parts : List Part

/-- The pattern being read: the innermost level and the levels around it. -/
structure Nest where
  level : Level
  outer : List Level

namespace Nest

def start : Nest := ⟨⟨[], []⟩, []⟩

def inGroup (nest : Nest) : Bool := !nest.outer.isEmpty

def push (nest : Nest) (part : Part) : Nest :=
  { nest with level := { nest.level with parts := part :: nest.level.parts } }

def openGroup (nest : Nest) : Nest := ⟨⟨[], []⟩, nest.level :: nest.outer⟩

def nextBranch (nest : Nest) : Nest :=
  { nest with level := ⟨nest.level.parts.reverse :: nest.level.branches, []⟩ }

/-- Whether a part matches nothing at all because all its branches are empty. -/
def isVoid : Part → Bool
  | .choice [] => true
  | _ => false

/-- Closes the innermost group. Empty branches are dropped. -/
def closeGroup? (nest : Nest) : Option Nest :=
  match nest.outer with
  | [] => none
  | level :: outer =>
    let branches := (nest.level.parts.reverse :: nest.level.branches).reverse
    let kept := branches.filter fun parts => !parts.all isVoid
    some (push ⟨level, outer⟩ (.choice kept))

/-- Two stars that stand for directories, behind other parts. The part before them, a slash, falls
away; behind a part that already stands for directories they add nothing. -/
def pushDirectories (nest : Nest) (part : Part) : Nest :=
  match nest.level.parts with
  | [] => nest.push part
  | .leading :: _ => nest
  | .trailing :: _ => nest
  | _ :: parts => { nest with level := { nest.level with parts := part :: parts } }

end Nest

/-- Two stars between the characters `before` and `next`: the pattern with them, and whether they
take the slash that follows. -/
def twoStars (nest : Nest) (before next : Option Char) : Nest × Bool :=
  let plain := ((nest.push .run).push .run, false)
  if nest.level.parts.isEmpty then
    if next = some '/' then (nest.push .leading, true)
    else if next = none then (nest.push .leading, false)
    else plain
  else if before = some '/' ∨ nest.inGroup ∧ (before = some ',' ∨ before = some '\x7b') then
    if next = some '/' then (nest.pushDirectories .between, true)
    else if next = none ∨ nest.inGroup ∧ (next = some ',' ∨ next = some '\x7d') then
      (nest.pushDirectories .trailing, false)
    else plain
  else plain

/-- Reads the rest of a pattern behind the character `before`. -/
def readParts (nest : Nest) (before : Option Char) (text : List Char) : Except Flaw (List Part) :=
  match text with
  | [] => if nest.inGroup then .error .unclosedGroup else .ok nest.level.parts.reverse
  | '?' :: rest => readParts (nest.push .any) (some '?') rest
  | '*' :: '*' :: rest =>
    let (nest', slash) := twoStars nest before rest.head?
    if slash then readParts nest' (some '/') rest.tail else readParts nest' (some '*') rest
  | '*' :: rest => readParts (nest.push .run) (some '*') rest
  | '[' :: rest =>
    match readSet rest with
    | .error flaw => .error flaw
    | .ok (part, ⟨after, _⟩) => readParts (nest.push part) (some ']') after
  | '\x7b' :: rest => readParts nest.openGroup (some '\x7b') rest
  | '\x7d' :: rest =>
    match nest.closeGroup? with
    | none => .error .unopenedGroup
    | some nest' => readParts nest' (some '\x7d') rest
  | ',' :: rest =>
    readParts (if nest.inGroup then nest.nextBranch else nest.push (.literal ',')) (some ',') rest
  | ['\\'] => .error .danglingEscape
  | '\\' :: c :: rest => readParts (nest.push (.literal c)) (some c) rest
  | c :: rest => readParts (nest.push (.literal c)) (some c) rest
termination_by text.length
decreasing_by all_goals simp <;> omega

/-- The glob that a pattern writes. -/
def read (pattern : String) : Except Flaw Glob :=
  (readParts .start none pattern.toList).map (⟨·⟩)

end CoChange.Glob
