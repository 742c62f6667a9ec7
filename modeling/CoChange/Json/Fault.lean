import CoChange.Text.Quoted
import CoChange.Text.Utf8

/-!
# Faults in JSON texts

A reader stops at a cause, with the bytes that it has not consumed yet. Together with the whole
text that gives the line and the column of the fault, both counted in consumed bytes: a character
that was looked at and found wrong counts as consumed.
-/

namespace CoChange.Json

/-- What a reader asks for at some place. -/
inductive Kind where
  | map
  | sequence
  | string
deriving DecidableEq, Repr

/-- What a reader found instead. -/
inductive Found where
  | null
  | boolean (value : Bool)
  | integer (value : Int)
  | floating (text : String)
  | string (text : String)
  | sequence
  | map
deriving DecidableEq, Repr

inductive Cause where
  | endInValue
  | endInList
  | endInObject
  | endInString
  | expectedValue
  | expectedIdent
  | expectedColon
  | expectedCommaOrBracket
  | expectedCommaOrBrace
  | keyNotString
  | trailingComma
  | trailingCharacters
  | badEscape
  | cutEscape
  | loneSurrogate
  | controlCharacter
  | badNumber
  | numberOutOfRange
  | tooDeep
  | wrongKind (found : Found) (expected : Kind)
deriving DecidableEq, Repr

def Kind.text : Kind → String
  | .map => "a map"
  | .sequence => "a sequence"
  | .string => "a string"

def Found.text : Found → String
  | .null => "null"
  | .boolean value => "boolean `" ++ (if value then "true" else "false") ++ "`"
  | .integer value => "integer `" ++ toString value ++ "`"
  | .floating text => "floating point `" ++ text ++ "`"
  | .string text => "string " ++ Text.quoted text
  | .sequence => "sequence"
  | .map => "map"

def Cause.text : Cause → String
  | .endInValue => "EOF while parsing a value"
  | .endInList => "EOF while parsing a list"
  | .endInObject => "EOF while parsing an object"
  | .endInString => "EOF while parsing a string"
  | .expectedValue => "expected value"
  | .expectedIdent => "expected ident"
  | .expectedColon => "expected `:`"
  | .expectedCommaOrBracket => "expected `,` or `]`"
  | .expectedCommaOrBrace => "expected `,` or `\x7d`"
  | .keyNotString => "key must be a string"
  | .trailingComma => "trailing comma"
  | .trailingCharacters => "trailing characters"
  | .badEscape => "invalid escape"
  | .cutEscape => "unexpected end of hex escape"
  | .loneSurrogate => "lone leading surrogate in hex escape"
  | .controlCharacter => "control character (\\u0000-\\u001F) found while parsing a string"
  | .badNumber => "invalid number"
  | .numberOutOfRange => "number out of range"
  | .tooDeep => "recursion limit exceeded"
  | .wrongKind found expected => "invalid type: " ++ found.text ++ ", expected " ++ expected.text

/-- A cause, with the number of bytes that were not consumed. -/
structure Stop where
  cause : Cause
  left : Nat
deriving DecidableEq, Repr

def byteCount (text : List Char) : Nat := text.foldl (fun count c => count + c.utf8Size) 0

/-- A stop in front of `rest`. -/
def Stop.before (cause : Cause) (rest : List Char) : Stop := ⟨cause, byteCount rest⟩

/-- A stop `count` bytes into `rest`, or at its end. -/
def Stop.into (cause : Cause) (count : Nat) (rest : List Char) : Stop :=
  ⟨cause, byteCount rest - count⟩

/-- A cause, with the place where it was found. -/
structure Fault where
  cause : Cause
  line : Nat
  column : Nat
deriving DecidableEq, Repr

/-- One more consumed byte: a line feed starts a line. -/
def advance (place : Nat × Nat) (byte : UInt8) : Nat × Nat :=
  if byte = 10 then (place.1 + 1, 0) else (place.1, place.2 + 1)

/-- The line and the column that consumed bytes lead to. -/
def position (consumed : List UInt8) : Nat × Nat := consumed.foldl advance (1, 0)

/-- The fault of a stop in a text. -/
def Stop.fault (stop : Stop) (text : List Char) : Fault :=
  let bytes := Text.encode text
  let (line, column) := position (bytes.take (bytes.length - stop.left))
  ⟨stop.cause, line, column⟩

def Fault.text (fault : Fault) : String :=
  fault.cause.text ++ " at line " ++ toString fault.line ++ " column " ++ toString fault.column

end CoChange.Json
