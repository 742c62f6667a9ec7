import CoChange.Report.Format
import CoChange.Text.Cut

/-!
# Arguments

Options are given as `--name value` or `--name=value`, some also by one letter; the letters of
switches can be drawn together. A value that stands by itself does not start with a dash, but may
be a dash. The lists of globs can be added to; everything else is given at most once. There are no
other arguments.
-/

namespace CoChange

/-- An option with a value. -/
inductive Setting where
  | included
  | excluded
  | overrides
  | fallback
  | root
  | diff
  | format
deriving DecidableEq, Repr

inductive Switch where
  | verbose
  | version
deriving DecidableEq, Repr

/-- An option, by its name. -/
inductive CommandOption where
  | setting (setting : Setting)
  | switch (switch : Switch)
deriving DecidableEq, Repr

namespace CommandOption

def longNames : List (String × CommandOption) :=
  [("include", .setting .included), ("exclude", .setting .excluded),
   ("ext-map", .setting .overrides), ("default-template", .setting .fallback),
   ("root", .setting .root), ("diff", .setting .diff), ("format", .setting .format),
   ("verbose", .switch .verbose), ("version", .switch .version)]

def letters : List (Char × CommandOption) :=
  [('f', .setting .format), ('v', .switch .verbose), ('V', .switch .version)]

end CommandOption

/-- What the arguments ask for. -/
structure Arguments where
  included : List String := []
  excluded : List String := []
  /-- The file of overrides. -/
  overrides : Option String := none
  /-- The template for extensions without templates. -/
  fallback : Option String := none
  /-- The directory that the paths of the diff start from. -/
  root : Option String := none
  /-- The file with the diff, in place of the standard input. -/
  diff : Option String := none
  format : Option Format := none
  verbose : Bool := false
deriving DecidableEq, Repr

inductive Invocation where
  | version
  | lint (arguments : Arguments)
deriving DecidableEq, Repr

namespace Arguments

/-- Fills a place that must be empty. -/
def once {α : Type} (place : Option α) (value : α) : Option (Option α) :=
  if place.isSome then none else some (some value)

/-- Fills a place that must be empty with a path, which must not be empty. -/
def oncePath (place : Option String) (path : String) : Option (Option String) :=
  if path = "" then none else once place path

/-- Takes an option with its value; `none` for a value that is not allowed. -/
def set (arguments : Arguments) (setting : Setting) (value : String) : Option Arguments :=
  match setting with
  | .included => some { arguments with included := arguments.included ++ [value] }
  | .excluded => some { arguments with excluded := arguments.excluded ++ [value] }
  | .overrides => (oncePath arguments.overrides value).map ({ arguments with overrides := · })
  | .fallback => (once arguments.fallback value).map ({ arguments with fallback := · })
  | .root => (oncePath arguments.root value).map ({ arguments with root := · })
  | .diff => (oncePath arguments.diff value).map ({ arguments with diff := · })
  | .format =>
    ((Format.ofName? value).bind (once arguments.format ·)).map ({ arguments with format := · })

/-- Whether an argument can be the value of the option before it. -/
def isValue (argument : String) : Bool :=
  argument.toList.head? != some '-' || argument == "-"

/-- What is left to do behind the arguments read so far. -/
inductive Progress where
  /-- More arguments can follow. -/
  | more (arguments : Arguments)
  /-- The value of an option has to follow. -/
  | value (setting : Setting) (arguments : Arguments)
  /-- Nothing that follows matters. -/
  | version

def turnOn (arguments : Arguments) : Switch → Option Progress
  | .verbose => if arguments.verbose then none else some (.more { arguments with verbose := true })
  | .version => some .version

/-- Takes an option by its long name, with the value behind the equals sign if there is one. -/
def takeLong (arguments : Arguments) (name : String) (value : Option String) : Option Progress :=
  match CommandOption.longNames.lookup name, value with
  | some (.setting setting), some value => (arguments.set setting value).map .more
  | some (.setting setting), none => some (.value setting arguments)
  | some (.switch switch), none => arguments.turnOn switch
  | _, _ => none

/-- Takes options by their letters. What follows the letter of an option with a value is the value;
an equals sign before it falls away. -/
def takeLetters (arguments : Arguments) : List Char → Option Progress
  | [] => some (.more arguments)
  | letter :: rest =>
    match CommandOption.letters.lookup letter with
    | some (.setting setting) =>
      match rest with
      | [] => some (.value setting arguments)
      | '=' :: value => (arguments.set setting (String.ofList value)).map .more
      | value => (arguments.set setting (String.ofList value)).map .more
    | some (.switch switch) =>
      match arguments.turnOn switch with
      | some (.more arguments) => takeLetters arguments rest
      | progress => progress
    | none => none

def take (arguments : Arguments) (argument : String) : Option Progress :=
  match argument.toList with
  | '-' :: '-' :: option =>
    match Text.cutFirst? '=' option with
    | some (name, value) => arguments.takeLong (String.ofList name) (some (String.ofList value))
    | none => arguments.takeLong (String.ofList option) none
  | '-' :: letter :: letters => arguments.takeLetters (letter :: letters)
  | _ => none

/-- Takes the arguments that are left; `none` if they are no use of the program. Two dashes end
the options. -/
def readFrom (progress : Progress) (rest : List String) : Option Invocation :=
  match progress, rest with
  | .version, _ => some .version
  | .more arguments, [] => some (.lint arguments)
  | .value .., [] => none
  | .value setting arguments, value :: rest =>
    if isValue value then
      (arguments.set setting value).bind fun arguments => readFrom (.more arguments) rest
    else none
  | .more arguments, argument :: rest =>
    if argument = "--" then if rest.isEmpty then some (.lint arguments) else none
    else (arguments.take argument).bind fun progress => readFrom progress rest

/-- What the arguments ask for; `none` if they are no use of the program. -/
def read (arguments : List String) : Option Invocation := readFrom (.more {}) arguments

end Arguments

end CoChange
