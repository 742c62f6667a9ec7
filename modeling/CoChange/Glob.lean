import CoChange.Text.Utf8

/-!
# Globs

A glob is matched against the bytes of a whole path. Its parts are matched from left to right, for
all ways of matching at once: what is kept are the places of the path that the parts so far can
lead to. A path matches when its end is among them. A slash is a byte like any other, but for the
parts that stand for whole directories.
-/

namespace CoChange

namespace Glob

abbrev Bytes := List UInt8

inductive Part where
  /-- This very character. -/
  | literal (c : Char)
  /-- Any one byte. -/
  | any
  /-- Any bytes, also none. -/
  | run
  /-- Nothing, or bytes up to and with a slash. -/
  | leading
  /-- A slash and any bytes. -/
  | trailing
  /-- A slash, or two slashes around any bytes. -/
  | between
  /-- One byte of a set, or one byte outside of it. -/
  | oneOf (negated : Bool) (ranges : List (Char × Char))
  /-- One of several sequences of parts; nothing at all if there is none. -/
  | choice (branches : List (List Part))

def charBytes (c : Char) : Bytes := String.utf8EncodeChar c

/-- Whether a byte lies in a range of characters. The set of a range is that of the bytes it is
written with: single bytes, but for the two that meet at the dash. -/
def inRange (byte : UInt8) (low high : Char) : Bool :=
  let first := charBytes low
  let last := charBytes high
  if low = high then first.contains byte
  else
    first.dropLast.contains byte || last.tail.contains byte
      || (first.getLastD 0 ≤ byte && byte ≤ last.headD 0)

/-- Whether a byte belongs to a set. -/
def inSet (byte : UInt8) (negated : Bool) (ranges : List (Char × Char)) : Bool :=
  (ranges.any fun (low, high) => inRange byte low high) != negated

/-! ## Places -/

/-- Which places of a path are meant: one flag for the place before each byte, and one for the
end. -/
abbrev Places := List Bool

namespace Places

/-- The place before the first byte. -/
def first (path : Bytes) : Places := true :: path.map fun _ => false

def empty (places : Places) : Places := places.map fun _ => false

/-- The places behind a byte with a property. -/
def step (admits : UInt8 → Bool) (path : Bytes) (places : Places) : Places :=
  false :: List.zipWith (fun byte here => here && admits byte) path places

/-- The places behind a slash. -/
def slash (path : Bytes) (places : Places) : Places := places.step (· == 0x2F) path

/-- The places at or behind a place; all of them if `reached`. -/
def onward (reached : Bool) : Places → Places
  | [] => []
  | here :: rest => (reached || here) :: onward (reached || here) rest

/-- The places of either kind. -/
def either (places others : Places) : Places := List.zipWith (· || ·) places others

def atEnd (places : Places) : Bool := places.getLastD false

@[simp] theorem length_first (path : Bytes) : (first path).length = path.length + 1 := by
  simp [first]

@[simp] theorem length_step {admits : UInt8 → Bool} {path : Bytes} {places : Places}
    (h : places.length = path.length + 1) : (step admits path places).length = path.length + 1 := by
  simp [step, h]

@[simp] theorem length_onward (reached : Bool) (places : Places) :
    (onward reached places).length = places.length := by
  induction places generalizing reached with
  | nil => rfl
  | cons here rest ih => simp [onward, ih]

end Places

mutual

/-- The places behind a part that starts at one of the given places. -/
def Part.advance (path : Bytes) : Part → Places → Places
  | .literal c, places => (charBytes c).foldl (fun places b => places.step (· == b) path) places
  | .any, places => places.step (fun _ => true) path
  | .run, places => places.onward false
  | .leading, places => places.either ((places.onward false).slash path)
  | .trailing, places => (places.slash path).onward false
  | .between, places =>
    let behind := places.slash path
    behind.either ((behind.onward false).slash path)
  | .oneOf negated ranges, places => places.step (inSet · negated ranges) path
  | .choice branches, places =>
    if branches.isEmpty then places else advanceBranches path branches places

/-- The places behind a sequence of parts. -/
def advanceAll (path : Bytes) : List Part → Places → Places
  | [], places => places
  | part :: parts, places => advanceAll path parts (part.advance path places)

/-- The places behind one of several sequences of parts. -/
def advanceBranches (path : Bytes) : List (List Part) → Places → Places
  | [], places => places.empty
  | branch :: branches, places =>
    (advanceAll path branch places).either (advanceBranches path branches places)

end

/-- Whether parts match a path as a whole. A pattern that only asks for leading directories matches
everything. -/
def fits (parts : List Part) (path : Bytes) : Bool :=
  match parts with
  | [.leading] => true
  | parts => (advanceAll path parts (.first path)).atEnd

end Glob

/-- A pattern, as the sequence of its parts. -/
structure Glob where
  parts : List Glob.Part

end CoChange
