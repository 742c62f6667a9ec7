import CoChange.Glob.Expression
import CoChange.Glob.Reader
import CoChange.Json.Fault

/-!
# Faults

Every way in which a run can fail, by its cause. `Fault.message` is the wording, `Fault.category`
the coarse kind: what the user configured, what a file says, or what could not be read.
-/

namespace CoChange

/-- Why the bytes of a file or a stream are not there, or are no text. -/
inductive ReadFailure where
  | unknownName
  | noSuchFile
  | notADirectory
  | isADirectory
  | nameTooLong
  | nulByte
  | notUtf8
  | other (text : String)
deriving DecidableEq, Repr

def ReadFailure.text : ReadFailure → String
  | .unknownName => "no such file"
  | .noSuchFile => "No such file or directory (os error 2)"
  | .notADirectory => "Not a directory (os error 20)"
  | .isADirectory => "Is a directory (os error 21)"
  | .nameTooLong => "File name too long (os error 36)"
  | .nulByte => "file name contained an unexpected NUL byte"
  | .notUtf8 => "stream did not contain valid UTF-8"
  | .other text => text

/-- What can be wrong with a line of a diff. -/
inductive DiffFlaw where
  | headerOutsideSection
  | badHeader
  | numberOutOfRange
  | strayBodyLine
  | bodyTooLong
  | bodyUnfinished
deriving DecidableEq, Repr

def DiffFlaw.text : DiffFlaw → String
  | .headerOutsideSection => "hunk header outside a file section"
  | .badHeader => "invalid hunk header"
  | .numberOutOfRange => "line number out of range"
  | .strayBodyLine => "unexpected line in hunk body"
  | .bodyTooLong => "hunk body longer than its header"
  | .bodyUnfinished => "unexpected end of hunk body"

/-- What can be wrong with the directives of a file. -/
inductive DirectiveFlaw where
  /-- A directive with a keyword that is none. -/
  | unknown (keyword : String)
  /-- An IF while the rule of an earlier line is open. -/
  | nestedIf (openLine : Nat)
  /-- An END while no rule is open. -/
  | strayEnd
  /-- An IF that no END follows. -/
  | unclosedIf
  /-- An END with more than one argument. -/
  | surplusArguments (arguments : List String)
  /-- An argument of an IF that names no target. -/
  | badTarget (argument : String)
deriving DecidableEq, Repr

inductive Fault where
  /-- A stream could not be read. -/
  | unreadableStream (failure : ReadFailure)
  /-- A file could not be read. -/
  | unreadableFile (path : String) (failure : ReadFailure)
  /-- No template is registered for the extension of a file. -/
  | noTemplate (path : String) (extension : Option String)
  /-- A template without its placeholder. -/
  | noPlaceholder (template : String)
  /-- A line of a file has a directive that does not fit. -/
  | badDirective (file : String) (line : Nat) (flaw : DirectiveFlaw)
  /-- A line of a diff does not fit. -/
  | malformedDiff (line : Nat) (flaw : DiffFlaw)
  /-- A glob that cannot be read. -/
  | badGlob (pattern : String) (flaw : Glob.Flaw)
  /-- Globs of which one nests too deeply. -/
  | deepGlob (patterns : List String) (excess : Glob.Excess)
  /-- A file of overrides that cannot be understood. -/
  | badOverridesFile (path : String) (fault : Json.Fault)
  /-- Overrides that cannot be understood. -/
  | badOverrides (fault : Json.Fault)
deriving DecidableEq, Repr

/-- The coarse kind of a fault. -/
inductive Category where
  | configuration
  | directives
  | input
deriving DecidableEq, Repr

namespace Fault

def category : Fault → Category
  | noTemplate .. | noPlaceholder _ | badGlob .. | deepGlob .. | badOverridesFile .. => .configuration
  | badDirective .. => .directives
  | unreadableStream _ | unreadableFile .. | malformedDiff .. | badOverrides _ => .input

/-- The wording of a flaw at a place such as `a.py:3`. -/
def directiveMessage (place : String) : DirectiveFlaw → String
  | .unknown keyword => "Unknown directive " ++ Text.quoted keyword ++ " at " ++ place
  | .nestedIf openLine =>
    "Unexpected IF at " ++ place ++ ": rule opened at line " ++ toString openLine ++
      " is not closed"
  | .strayEnd => "Unexpected END at " ++ place ++ ": no open rule"
  | .unclosedIf => "Unterminated rule at " ++ place ++ ": missing END"
  | .surplusArguments arguments =>
    "Too many END arguments at " ++ place ++ ": " ++ Text.quotedList arguments
  | .badTarget argument => "Invalid target " ++ Text.quoted argument ++ " at " ++ place

def overridesMessage (fault : Json.Fault) : String := "JSON serialization error: " ++ fault.text

def message : Fault → String
  | unreadableStream failure => "IO error: " ++ failure.text
  | unreadableFile path failure => "Failed to read file " ++ path ++ ": " ++ failure.text
  | noTemplate path extension =>
    "No directive template for file " ++ path ++ " (extension " ++ Text.quotedOption extension ++ ")"
  | noPlaceholder template =>
    "Directive template " ++ Text.quoted template ++ " is missing its '?' placeholder"
  | badDirective file line flaw => directiveMessage (file ++ ":" ++ toString line) flaw
  | malformedDiff line flaw =>
    "Malformed diff at line " ++ toString line ++ ": " ++ flaw.text
  | badGlob pattern flaw =>
    "Invalid glob pattern " ++ Text.quoted pattern ++ ": error parsing glob '" ++ pattern ++
      "': " ++ flaw.text
  | deepGlob patterns excess =>
    "Invalid glob pattern " ++ Text.quoted (",".intercalate patterns) ++ ": " ++ excess.text
  | badOverridesFile path fault => "Invalid config " ++ path ++ ": " ++ overridesMessage fault
  | badOverrides fault => overridesMessage fault

end Fault

end CoChange
