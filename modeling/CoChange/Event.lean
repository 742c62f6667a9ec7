import CoChange.Json.Value
import CoChange.Span

/-!
# Events

What a run reports about its progress, in order. An event has a level, a message and named fields.
-/

namespace CoChange

inductive Level where
  | debug
  | info
  | warn
deriving DecidableEq, Repr

def Level.text : Level → String
  | .debug => "DEBUG"
  | .info => "INFO"
  | .warn => "WARN"

inductive Event where
  /-- A changed file is not linted. -/
  | skippedFile (file : String)
  /-- The files of a wave are about to be read. -/
  | startedWave (wave files : Nat)
  /-- A file named by a target is read in the next wave. -/
  | discoveredFile (origin file : String)
  /-- The rules of a file that is read on its own are known. -/
  | parsedRules (file : String) (rules present : Nat)
  /-- A target names the rule that it belongs to, or its file. -/
  | selfTarget (file : String) (span : Span) (target : String)
  | checkedRules (unsatisfied : Nat)
  | finished (hunks files rules unsatisfied : Nat)
deriving DecidableEq, Repr

namespace Event

def level : Event → Level
  | skippedFile .. | discoveredFile .. | parsedRules .. => .debug
  | startedWave .. | checkedRules .. | finished .. => .info
  | selfTarget .. => .warn

def message : Event → String
  | skippedFile .. => "skipping filtered file"
  | startedWave .. => "parsing rule files"
  | discoveredFile .. => "discovered target file"
  | parsedRules .. => "parsed rules"
  | selfTarget .. => "rule targets itself and is always satisfied"
  | checkedRules .. => "checked rules"
  | finished .. => "lint finished"

def fields : Event → List (String × Json)
  | skippedFile file => [("file", .string file)]
  | startedWave wave files => [("wave", .number wave), ("files", .number files)]
  | discoveredFile origin file => [("from", .string origin), ("file", .string file)]
  | parsedRules file rules present =>
    [("file", .string file), ("rules", .number rules), ("present", .number present)]
  | selfTarget file span target =>
    [("file", .string file), ("range", .string span.text), ("target", .string target)]
  | checkedRules unsatisfied => [("unsatisfied", .number unsatisfied)]
  | finished hunks files rules unsatisfied =>
    [("hunks", .number hunks), ("files", .number files), ("rules", .number rules),
      ("unsatisfied", .number unsatisfied)]

end Event

end CoChange
