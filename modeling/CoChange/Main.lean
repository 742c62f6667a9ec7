import CoChange.CommandLine

/-!
# The program

Files are read on demand: a run is repeated with the answers for the files that it asked for, until
it asks for nothing new. What is left is printing.
-/

namespace CoChange.Program

/-- The number of a system error, which some calls give negated. -/
def errorNumber (code : UInt32) : Nat := min code.toNat (Nat.pow 2 32 - code.toNat)

/-- Why the system did not give the bytes of a file. -/
def failureOf (problem : IO.Error) : ReadFailure :=
  match problem with
  | .noFileOrDirectory .. => .noSuchFile
  | .inappropriateType _ code _ =>
    if errorNumber code = 21 then .isADirectory else .notADirectory
  | .invalidArgument _ code _ =>
    if errorNumber code = 36 then .nameTooLong else .other (toString problem)
  | _ => .other (toString problem)

/-- The answer of the system for a path. -/
def readPath (path : String) : IO (Except ReadFailure (List UInt8)) := do
  if '\x00' ∈ path.toList then return .error .nulByte
  try
    let bytes ← IO.FS.readBinFile path
    return .ok bytes.toList
  catch problem => return .error (failureOf problem)

/-- Answers of the system for paths. -/
abbrev Answers := List (String × Except ReadFailure (List UInt8))

def readPaths (paths : List String) : IO Answers :=
  paths.mapM fun path => return (path, ← readPath path)

/-- The disk of known answers, with the names known below the root. -/
def diskOf (answers : Answers) (names : List String) : Disk :=
  let read (path : String) := (answers.lookup path).getD (.error .noSuchFile)
  ⟨read, fun root => Disk.sourceBelow read root names⟩

/-- Runs until no file is asked for that has no answer. -/
partial def settle (arguments : Arguments) (input : List UInt8) (answers : Answers)
    (names : List String) : IO Outcome := do
  let outcome := arguments.run (diskOf answers names) input
  let new := outcome.asked.filter (· ∉ names)
  if new.isEmpty then return outcome
  let more ← readPaths (new.map (Path.join arguments.rootPath))
  settle arguments input (answers ++ more) (names ++ new)

/-- The bytes of the standard input. -/
def readInput : IO (List UInt8) := return (← (← IO.getStdin).readBinToEnd).toList

/-- An event as a line of the log. -/
def logLine (event : Event) : String :=
  let fields := event.fields.map fun (name, value) => " " ++ name ++ "=" ++ value.text .compact
  event.level.text ++ " " ++ event.message ++ "".intercalate fields

/-- Prints what a run leaves behind. -/
def report (verbose : Bool) (outcome : Outcome) : IO UInt32 := do
  for event in outcome.events do
    if verbose || event.level = .warn then IO.eprintln (logLine event)
  IO.print outcome.output
  if let some fault := outcome.fault then IO.eprintln ("Error: " ++ fault.message)
  return outcome.code.toUInt32

end CoChange.Program

open CoChange Program in
def main (args : List String) : IO UInt32 := do
  match Arguments.read args with
  | none =>
    IO.eprintln "error: the arguments are not understood"
    return 2
  | some .version =>
    IO.print CommandLine.versionText
    return 0
  | some (.lint arguments) =>
    let input ← if arguments.diff.isSome then pure [] else readInput
    let answers ← readPaths (arguments.overrides.toList ++ arguments.diff.toList)
    report arguments.verbose (← settle arguments input answers [])
