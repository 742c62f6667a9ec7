import CoChange.CommandLine.Arguments
import CoChange.Disk
import CoChange.Lint
import CoChange.Overrides

/-!
# The command line

A run reads the overrides, registers templates, reads the globs, reads the diff and lints it, in
this order; the first fault ends it. The exit code is 0 when every rule is satisfied, 1 when some
is not, and 2 when the run failed or was asked for in a wrong way.
-/

namespace CoChange

/-- What a run of the program leaves behind. -/
structure Outcome where
  code : Nat
  /-- The text on the standard output. -/
  output : String
  /-- Why the run failed, if it did. -/
  fault : Option Fault
  events : List Event
  /-- The files that linting asked for, below the root. -/
  asked : List String

namespace Arguments

def rootPath (arguments : Arguments) : String := arguments.root.getD "."

/-- The built-in table with the overrides of a file. -/
def tableWithOverrides (arguments : Arguments) (disk : Disk) : Except Fault TemplateTable :=
  match arguments.overrides with
  | none => .ok .builtIn
  | some path => do
    let text ← disk.readText path
    let overrides ← Overrides.readFile path text
    overrides.apply .builtIn

/-- The templates that the arguments ask for. -/
def table (arguments : Arguments) (disk : Disk) : Except Fault TemplateTable := do
  let table ← arguments.tableWithOverrides disk
  match arguments.fallback with
  | none => return table
  | some template => table.registerFallback template

def options (arguments : Arguments) (disk : Disk) : Except Fault Options := do
  let table ← arguments.table disk
  let filter ← PathFilter.read arguments.included arguments.excluded
  return ⟨table, filter⟩

def diffText (arguments : Arguments) (disk : Disk) (input : List UInt8) : Except Fault String :=
  match arguments.diff with
  | none => .ok (String.ofList (Text.decodeLenient input))
  | some path => disk.readDiff path

def lint (arguments : Arguments) (disk : Disk) (input : List UInt8) : LintRun :=
  let prepared : Except Fault (Options × String) := do
    let options ← arguments.options disk
    let diff ← arguments.diffText disk input
    return (options, diff)
  match prepared with
  | .error fault => ⟨[], [], .error fault⟩
  | .ok (options, diff) => options.lint (disk.below arguments.rootPath) diff

/-- What is left behind by linting. -/
def run (arguments : Arguments) (disk : Disk) (input : List UInt8) : Outcome :=
  let run := arguments.lint disk input
  match run.outcome with
  | .error fault => ⟨2, "", some fault, run.events, run.asked⟩
  | .ok report =>
    { code := if report.passed then 0 else 1
      output := report.render (arguments.format.getD .text) false ++ "\n"
      fault := none
      events := run.events
      asked := run.asked }

end Arguments

namespace CommandLine

/-- The answer to a request for the version. -/
def versionText : String := "difflint 0.1.0\n"

/-- Runs the program on its arguments, a disk and the bytes of the standard input. -/
def run (arguments : List String) (disk : Disk) (input : List UInt8) : Outcome :=
  match Arguments.read arguments with
  | none => ⟨2, "", none, [], []⟩
  | some .version => ⟨0, versionText, none, [], []⟩
  | some (.lint arguments) => arguments.run disk input

end CommandLine

end CoChange
