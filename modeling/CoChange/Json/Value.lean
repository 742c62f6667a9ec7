/-!
# JSON values and their texts

A value is written on one line, or spread over lines with two spaces for each level. Strings are
written raw but for the quote, the backslash and the characters below the space. Members keep
their order.
-/

namespace CoChange

inductive Json where
  | null
  | bool (value : Bool)
  | number (value : Nat)
  | string (value : String)
  | list (items : List Json)
  | record (members : List (String × Json))

namespace Json

/-- How a value is laid out. -/
inductive Layout where
  | compact
  | pretty
deriving DecidableEq, Repr

/-- Two lower case hexadecimal digits. -/
def hexByte (n : Nat) : List Char :=
  [Nat.digitChar (n / 16 % 16), Nat.digitChar (n % 16)]

/-- One character of a string. -/
def escaped (c : Char) : List Char :=
  if c = '"' then ['\\', '"']
  else if c = '\\' then ['\\', '\\']
  else if c = '\x08' then ['\\', 'b']
  else if c = '\x0c' then ['\\', 'f']
  else if c = '\n' then ['\\', 'n']
  else if c = '\r' then ['\\', 'r']
  else if c = '\t' then ['\\', 't']
  else if c.toNat < 0x20 then ['\\', 'u', '0', '0'] ++ hexByte c.toNat
  else [c]

/-- A string between quotes. -/
def stringText (s : String) : List Char := '"' :: (s.toList.flatMap escaped ++ ['"'])

/-- The start of a line at a level. -/
def lineBreak (layout : Layout) (level : Nat) : List Char :=
  match layout with
  | .compact => []
  | .pretty => '\n' :: List.replicate (2 * level) ' '

def colon : Layout → List Char
  | .compact => [':']
  | .pretty => [':', ' ']

mutual

/-- The text of a value that stands at a level. -/
def write (layout : Layout) (level : Nat) : Json → List Char
  | null => "null".toList
  | bool value => (if value then "true" else "false").toList
  | number value => Nat.toDigits 10 value
  | string value => stringText value
  | list items => '[' :: (writeItems layout level true items ++ [']'])
  | record members => '\x7b' :: (writeMembers layout level true members ++ ['\x7d'])

/-- The items of a list with what separates them and ends the last line. -/
def writeItems (layout : Layout) (level : Nat) (start : Bool) : List Json → List Char
  | [] => if start then [] else lineBreak layout level
  | item :: rest =>
    (if start then [] else [',']) ++ lineBreak layout (level + 1) ++ write layout (level + 1) item
      ++ writeItems layout level false rest

/-- The members of a record with what separates them and ends the last line. -/
def writeMembers (layout : Layout) (level : Nat) (start : Bool) :
    List (String × Json) → List Char
  | [] => if start then [] else lineBreak layout level
  | (key, value) :: rest =>
    (if start then [] else [',']) ++ lineBreak layout (level + 1) ++ stringText key
      ++ colon layout ++ write layout (level + 1) value
      ++ writeMembers layout level false rest

end

def text (layout : Layout) (value : Json) : String := String.ofList (write layout 0 value)

def strings (texts : List String) : Json := list (texts.map string)

def stringOrNull : Option String → Json
  | none => null
  | some text => string text

end Json

end CoChange
