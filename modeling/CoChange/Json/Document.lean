import CoChange.Json.Reader
import CoChange.Json.Value

/-!
# JSON documents

A document is the text of one value of any shape. Lists and records nest up to a depth. Of numbers
only words are values: those of 64 bits, without sign, fraction and exponent.
-/

namespace CoChange.Json

/-- How deep the lists and records of a document may nest. -/
def maxDepth : Nat := 127

/-- What a scalar leaves behind has to be shorter than the text. -/
def Read.ofScalar {α : Type} (text : List Char) (read : Except Stop (α × List Char)) : Read α text :=
  match read with
  | .ok (value, rest) =>
    if shorter : rest.length < text.length then .ok (value, ⟨rest, shorter⟩)
    else .error (.before .expectedValue rest)
  | .error stop => .error stop

namespace Reader

/-- A value that is neither a list nor a record. -/
def scalar (text : List Char) : Except Stop (Json × List Char) :=
  match found text with
  | .ok (.null, rest) => .ok (.null, rest)
  | .ok (.boolean value, rest) => .ok (.bool value, rest)
  | .ok (.integer (.ofNat value), rest) => .ok (.number value, rest)
  | .ok (.string value, rest) => .ok (.string value, rest)
  | .ok (_, rest) => .error (.before .numberOutOfRange rest)
  | .error stop => .error stop

/-- A value whose lists and records nest up to a depth. -/
def value : Nat → Reader Json
  | depth, text =>
    match skipSpace text, length_skipSpace_le text with
    | [], _ => .error (.before .endInValue [])
    | '[' :: rest, below =>
      match depth with
      | 0 => .error (.before .tooDeep rest)
      | depth + 1 => (list (value depth) ('[' :: rest)).within below .list
    | '\x7b' :: rest, below =>
      match depth with
      | 0 => .error (.before .tooDeep rest)
      | depth + 1 => (map (value depth) ('\x7b' :: rest)).within below .record
    | other, below => (Read.ofScalar other (scalar other)).within below id

end Reader

/-- The value that a document writes. -/
def ofText? (text : String) : Option Json := ((Reader.value maxDepth).run text.toList).toOption

/-! ## Parts of a value -/

def word? : Json → Option Nat
  | number value => some value
  | _ => none

def bool? : Json → Option Bool
  | bool value => some value
  | _ => none

def string? : Json → Option String
  | string value => some value
  | _ => none

def list? {α : Type} (item? : Json → Option α) : Json → Option (List α)
  | list items => items.mapM item?
  | _ => none

/-- A string that may be null or missing. -/
def stringOrNull? : Option Json → Option (Option String)
  | none | some null => some none
  | some (string value) => some (some value)
  | _ => none

/-- The values that a record gives to names, each once at most, whatever else it holds. A list gives
its items to the names in order. -/
def fields? (names : List String) : Json → Option (List (Option Json))
  | record members =>
    names.mapM fun name =>
      match members.filter fun member => member.1 = name with
      | [] => some none
      | [member] => some (some member.2)
      | _ => none
  | list items => if items.length = names.length then some (items.map some) else none
  | _ => none

end CoChange.Json
