import CoChange.Text.Cut

/-!
# Paths

A path is a text of segments between slashes, absolute when it starts with one. Its normal form
drops empty segments and `.`, and lets `..` take back the name before it; what is left of `..`
stands at the front of a relative path and nowhere in an absolute one. Nothing is looked up: two
spellings of a path are compared by their normal forms.
-/

namespace CoChange.Path

abbrev Segment := List Char

/-- The segments of a path, empty ones included. -/
def segments (path : List Char) : List Segment := path.splitOn '/'

def isAbsolute (path : List Char) : Bool := path.head? == some '/'

/-- Puts a segment on top of the segments kept so far, the last one first. -/
def push (absolute : Bool) (kept : List Segment) (segment : Segment) : List Segment :=
  if segment = [] ∨ segment = ['.'] then kept
  else if segment = ['.', '.'] then
    match kept with
    | [] => if absolute then [] else [segment]
    | top :: below =>
      if top ≠ ['.', '.'] then below else if absolute then kept else segment :: kept
  else segment :: kept

/-- The segments of the normal form. -/
def reduce (absolute : Bool) (segments : List Segment) : List Segment :=
  (segments.foldl (push absolute) []).reverse

/-- The path with the given segments. The relative path without any is `.`. -/
def render (absolute : Bool) (segments : List Segment) : List Char :=
  if absolute then '/' :: ['/'].intercalate segments
  else if segments = [] then ['.']
  else ['/'].intercalate segments

/-- The normal form of a path. -/
def normal (path : List Char) : List Char :=
  render (isAbsolute path) (reduce (isAbsolute path) (segments path))

def normalize (path : String) : String := String.ofList (normal path.toList)

@[simp] theorem toList_normalize (path : String) :
    (normalize path).toList = normal path.toList := by
  simp [normalize]

/-! ## Files named by other files -/

/-- Whether a specifier is relative to the file that mentions it. -/
def isLocal (spec : List Char) : Bool :=
  ['.', '/'].isPrefixOf spec || ['.', '.', '/'].isPrefixOf spec

/-- The file that `spec` names when it stands in the file `origin`: one that starts with `./` or
`../` is taken from the directory of `origin`, any other from the root. -/
def resolve (spec origin : String) : String :=
  if isLocal spec.toList then
    match Text.cutLast? '/' origin.toList with
    | some (directory, _) => String.ofList (normal (directory ++ '/' :: spec.toList))
    | none => normalize spec
  else normalize spec

theorem resolve_of_not_local {spec : String} (h : isLocal spec.toList = false) (origin : String) :
    resolve spec origin = normalize spec := by
  simp [resolve, h]

/-! ## Extensions -/

/-- The last segment that names something. -/
def lastName? (path : List Char) : Option Segment :=
  ((segments path).filter fun s => s ≠ [] ∧ s ≠ ['.']).getLast?

/-- What follows the last dot of a name, if a dot follows its first character. The segment `..` has
no extension. -/
def extensionOf? (name : Segment) : Option (List Char) :=
  if name = ['.', '.'] then none
  else
    match Text.cutLast? '.' name with
    | some (_ :: _, extension) => some extension
    | _ => none

def extension? (path : String) : Option String :=
  ((lastName? path.toList).bind extensionOf?).map String.ofList

/-! ## Joining -/

/-- The path of `name` below the directory `root`; an absolute name stands for itself. -/
def join (root name : String) : String :=
  if isAbsolute name.toList then name
  else if root.toList = [] then name
  else if root.toList.getLast? = some '/' then root ++ name
  else root ++ "/" ++ name

end CoChange.Path
