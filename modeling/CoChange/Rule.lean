import CoChange.Directive
import CoChange.Path
import CoChange.Span

/-!
# Rules and targets

A rule is a guarded block: the lines from an IF to its END, the targets that the IF names, and the
identifier that the END may give. A target names a file, a rule in it, or a rule in its own file.
Both have keys, and a rule meets a target by having its key.
-/

namespace CoChange

/-- A reference to the rules of a file, or to those with an identifier. -/
structure Target where
  file : Option String
  id : Option String
deriving DecidableEq, Repr

/-- A key: the normal form of a file, with an identifier behind a colon if there is one. -/
def keyOf (file : String) : Option String → String
  | none => file
  | some id => file ++ ":" ++ id

namespace Target

/-- The file that a target points into, as seen from the file `origin`. -/
def fileKey (target : Target) (origin : String) : String :=
  match target.file with
  | some file => Path.resolve file origin
  | none => Path.normalize origin

def key (target : Target) (origin : String) : String := keyOf (target.fileKey origin) target.id

/-- The target that an argument writes: a file, an identifier behind a colon, or both. -/
def read? (argument : String) : Option Target :=
  match Text.cutFirst? ':' argument.toList with
  | none => if argument.toList = [] then none else some ⟨some argument, none⟩
  | some (_, []) => none
  | some ([], id) => some ⟨none, some (String.ofList id)⟩
  | some (file, id) => some ⟨some (String.ofList file), some (String.ofList id)⟩

/-- The argument that writes a target. -/
def written (target : Target) : String :=
  target.file.getD "" ++ (target.id.map (":" ++ ·)).getD ""

end Target

/-- A guarded block of a file. It is present when a diff touches it. -/
structure Rule where
  file : String
  span : Span
  targets : List Target
  id : Option String
  present : Bool
deriving DecidableEq, Repr

namespace Rule

def fileKey (rule : Rule) : String := Path.normalize rule.file

def key (rule : Rule) : String := keyOf rule.fileKey rule.id

def targetKeys (rule : Rule) : List String := rule.targets.map (·.key rule.file)

/-- The files that the targets of a rule name. -/
def namedFiles (rule : Rule) : List String :=
  rule.targets.filterMap fun target => target.file.map fun file => Path.resolve file rule.file

end Rule

end CoChange
