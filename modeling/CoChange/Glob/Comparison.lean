import CoChange.Glob

/-!
# Comparing globs with paths

Not every glob needs the whole path. Some are plain text at the start or the end of it, some can
only tell the last component, some ask for its name or for the extension of its name. The name of a
path is its last component; `..` is no name, for it stands for whatever directory is above. So a
glob that asks for a name or an extension does not match a path that ends in `..`, whatever its
characters are.
-/

namespace CoChange.Glob

/-- What a glob is compared with. -/
inductive Comparison where
  /-- The start, the end or the whole of a path, as plain text. -/
  | text
  /-- The name of a path, or the extension of the name. -/
  | name
  /-- The extension of the name and then the whole path. -/
  | extension
  /-- The last component of a path, name or not. -/
  | component
  /-- The whole path. -/
  | whole
deriving DecidableEq, Repr

def literalText? : List Part → Option (List Char)
  | [] => some []
  | .literal c :: rest => (literalText? rest).map (c :: ·)
  | _ :: _ => none

/-- The literal characters at the end of a pattern, from the end on. The parts come from the end on,
too. -/
def literalEnd : List Part → List Char
  | .literal c :: rest => c :: literalEnd rest
  | _ => []

/-- Whether a text is an extension: a dot, and behind it neither a dot nor a slash. -/
def isExtension : List Char → Bool
  | '.' :: rest => !rest.contains '.' && !rest.contains '/'
  | _ => false

def endsInExtension (parts : List Part) : Bool :=
  (literalEnd parts.reverse).find? (fun c => c == '.' || c == '/') == some '.'

/-- The comparison for any bytes and the given parts behind them, if these are literal. -/
def comparisonOfRun? (parts : List Part) : Option Comparison :=
  match literalText? parts with
  | none | some [] | some ['/'] => none
  | some text => some (if isExtension text then .name else .text)

/-- The comparison for leading directories and the given parts behind them, if these are
literal. -/
def comparisonOfLeading? (parts : List Part) : Option Comparison :=
  match literalText? parts with
  | none | some [] => none
  | some text => some (if text.contains '/' then .text else .name)

/-- Whether parts are literal characters and then any bytes, or any bytes behind a slash. -/
def isLiteralStart (parts : List Part) : Bool :=
  match parts.reverse with
  | .run :: rest => !rest.isEmpty && (literalText? rest.reverse).isSome
  | .trailing :: rest => (literalText? rest.reverse).isSome
  | _ => false

/-- The comparison for parts that are mostly literal. -/
def literalComparison? : List Part → Option Comparison
  | .leading :: .run :: rest => comparisonOfRun? rest
  | .leading :: rest => comparisonOfLeading? rest
  | .run :: rest => comparisonOfRun? rest
  | [] => none
  | parts => if (literalText? parts).isSome || isLiteralStart parts then some .text else none

/-- Whether a part is one character or one byte of a set, and cannot be a slash. -/
def Part.isWithinComponent : Part → Bool
  | .literal c => c != '/'
  | .oneOf negated ranges => !inSet 0x2F negated ranges
  | _ => false

/-- Whether parts are leading directories and then a single component. -/
def isComponent : List Part → Bool
  | .leading :: parts => !parts.isEmpty && parts.all Part.isWithinComponent
  | _ => false

/-- What parts are compared with. -/
def comparison (parts : List Part) : Comparison :=
  (literalComparison? parts).getD <|
    if endsInExtension parts then .extension
    else if isComponent parts then .component
    else .whole

/-- Whether the last component of a path is a name. -/
def hasName (path : Bytes) : Bool :=
  path.reverse.takeWhile (· != 0x2F) != [0x2E, 0x2E]

def holds (glob : Glob) (path : String) : Bool :=
  let bytes := Text.encode path.toList
  fits glob.parts bytes &&
    match comparison glob.parts with
    | .text | .component | .whole => true
    | .name | .extension => hasName bytes

end CoChange.Glob
