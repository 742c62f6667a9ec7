import CoChange.Glob.Comparison

/-!
# Globs as regular expressions

A glob that is not plain text is compared by way of a regular expression. Expressions that nest
deeper than a limit are refused, and so are the globs that stand for them. Only groups in braces
can nest without end, so only globs with many of them are refused.
-/

namespace CoChange.Glob

/-! ## Text -/

/-- The characters with a meaning of their own in an expression. -/
def isSpecial (c : Char) : Bool :=
  ['\\', '.', '+', '*', '?', '(', ')', '|', '[', ']', '\x7b', '\x7d', '^', '$', '#', '&', '-',
    '~'].contains c

/-- A byte that matches itself: an ASCII character, or two digits in base sixteen. -/
def byteExpression (byte : UInt8) : List Char :=
  if byte < 0x80 then
    let c := Char.ofNat byte.toNat
    if isSpecial c then ['\\', c] else [c]
  else '\\' :: 'x' :: Nat.toDigits 16 byte.toNat

def charExpression (c : Char) : List Char := (charBytes c).flatMap byteExpression

def rangeExpression (low high : Char) : List Char :=
  if low = high then charExpression low else charExpression low ++ '-' :: charExpression high

mutual

def Part.expression : Part → List Char
  | .literal c => charExpression c
  | .any => ['.']
  | .run => ".*".toList
  | .leading => "(?:/?|.*/)".toList
  | .trailing => "/.*".toList
  | .between => "(?:/|/.*/)".toList
  | .oneOf negated ranges =>
    (if negated then ['[', '^'] else ['['])
      ++ ranges.flatMap (fun (low, high) => rangeExpression low high) ++ [']']
  | .choice [] => []
  | .choice (branch :: branches) =>
    "(?:".toList ++ expressionOf branch ++ moreExpressions branches ++ [')']

def expressionOf : List Part → List Char
  | [] => []
  | part :: parts => part.expression ++ expressionOf parts

/-- The expressions of further branches, each behind a bar. -/
def moreExpressions : List (List Part) → List Char
  | [] => []
  | branch :: branches => '|' :: expressionOf branch ++ moreExpressions branches

end

/-- The expression of a glob, for bytes and for whole paths. -/
def expression (glob : Glob) : String :=
  let inner :=
    match glob.parts with
    | [.leading] => ".*".toList
    | parts => expressionOf parts
  String.ofList ("(?-u)^".toList ++ inner ++ ['$'])

/-! ## Depth -/

/-- The deepest nesting that is not refused. -/
def depthLimit : Nat := 250

/-- The number of items in the expression of a range. -/
def rangeItems (low high : Char) : Nat :=
  if low = high then (charBytes low).length
  else (charBytes low).length + (charBytes high).length - 1

/-- The number of items that the expression of a part puts next to each other. -/
def Part.items : Part → Nat
  | .literal c => (charBytes c).length
  | .trailing => 2
  | .choice [] => 0
  | _ => 1

/-- The level that a sequence of items adds: none if there is only one. -/
def sequenceLevel (items : Nat) : Nat := if items ≤ 1 then 0 else 1

mutual

/-- How deep the expression of a part nests. Sets, groups, repetitions, alternatives and sequences
each count as a level. -/
def Part.depth : Part → Nat
  | .literal _ | .any => 0
  | .run | .trailing => 1
  | .leading | .between => 4
  | .oneOf _ ranges =>
    1 + sequenceLevel (ranges.map fun (low, high) => rangeItems low high).sum
  | .choice branches => sequenceLevel branches.length + branchesDepth branches

/-- How deep the expression of a sequence of parts nests, without the level of the sequence. -/
def partsDepth : List Part → Nat
  | [] => 0
  | part :: parts => max part.depth (partsDepth parts)

/-- How deep a group of branches nests, without the level of the alternatives. -/
def branchesDepth : List (List Part) → Nat
  | [] => 0
  | branch :: branches =>
    max (1 + sequenceLevel (branch.map Part.items).sum + partsDepth branch)
      (branchesDepth branches)

end

/-- Whether the expression of a glob nests too deeply. -/
def isTooDeep (glob : Glob) : Bool := depthLimit < 1 + partsDepth glob.parts

/-! ## Refusal -/

/-- Which of several globs nests too deeply. -/
inductive Excess where
  /-- A glob that is compared by its extension first, by its expression. -/
  | alone (expression : String)
  /-- A glob that is compared with the whole path, by its index among such globs. -/
  | among (index : Nat)
deriving DecidableEq, Repr

def Excess.text : Excess → String
  | .alone expression => "error parsing glob '" ++ expression ++ "': error parsing pattern 0"
  | .among index => "error parsing pattern " ++ toString index

/-- The first glob that nests too deeply. Those that are compared by an extension come first. -/
def excess? (globs : List Glob) : Option Excess :=
  let compared (how : Comparison) := globs.filter fun glob => comparison glob.parts == how
  match (compared .extension).find? isTooDeep with
  | some glob => some (.alone glob.expression)
  | none => ((compared .whole).findIdx? isTooDeep).map .among

end CoChange.Glob
