import CoChange.Rule

/-!
# Rules from directives

The directives of a file have to come in pairs, each IF before its END. An IF names targets, an
END at most one identifier. A rule is present when one of the changed spans of its file meets it.
-/

namespace CoChange.Rule

/-- An IF that waits for its END. -/
structure Opening where
  line : Nat
  targets : List Target
deriving DecidableEq, Repr

def readTargets (file : String) (line : Nat) : List String → Except Fault (List Target)
  | [] => .ok []
  | argument :: rest =>
    match Target.read? argument with
    | none => .error (.badDirective file line (.badTarget argument))
    | some target => (readTargets file line rest).map (target :: ·)

def readId (file : String) (line : Nat) : List String → Except Fault (Option String)
  | [] => .ok none
  | [id] => .ok (some id)
  | arguments => .error (.badDirective file line (.surplusArguments arguments))

/-- The rule from an IF to an END on line `last`. -/
def close (file : String) (changed : List Span) (opening : Opening) (last : Nat)
    (id : Option String) : Rule :=
  let span : Span := ⟨opening.line, last⟩
  ⟨file, span, opening.targets, id, changed.any (·.meets span)⟩

/-- The rules of the rest of a file, while a rule may be open. -/
def ofDirectivesFrom (file : String) (changed : List Span) :
    Option Opening → List Directive → Except Fault (List Rule)
  | none, [] => .ok []
  | some opening, [] => .error (.badDirective file opening.line .unclosedIf)
  | none, ⟨.ifWord, arguments, line⟩ :: rest => do
    let targets ← readTargets file line arguments
    ofDirectivesFrom file changed (some ⟨line, targets⟩) rest
  | some opening, ⟨.ifWord, _, line⟩ :: _ =>
    .error (.badDirective file line (.nestedIf opening.line))
  | some opening, ⟨.endWord, arguments, line⟩ :: rest => do
    let id ← readId file line arguments
    let rules ← ofDirectivesFrom file changed none rest
    return close file changed opening line id :: rules
  | none, ⟨.endWord, _, line⟩ :: _ => .error (.badDirective file line .strayEnd)

/-- The rules that the directives of a file make, in order. -/
def ofDirectives (file : String) (changed : List Span) (directives : List Directive) :
    Except Fault (List Rule) :=
  ofDirectivesFrom file changed none directives

end CoChange.Rule
