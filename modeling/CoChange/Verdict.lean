import CoChange.Exploration

/-!
# Verdicts

A target is met when a present rule has its key, or lies in its file if the target gives no
identifier. A present rule with an unmet target is unsatisfied.
-/

namespace CoChange

/-- A present rule with the indices of its unmet targets. -/
structure UnsatisfiedRule where
  rule : Rule
  missing : List Nat
deriving DecidableEq, Repr

def UnsatisfiedRule.missingKeys (unsatisfied : UnsatisfiedRule) : List String :=
  unsatisfied.missing.filterMap fun index =>
    unsatisfied.rule.targets[index]?.map (·.key unsatisfied.rule.file)

namespace Rule

/-- The keys that a present rule answers to: that of its file, and its own if it has an
identifier. -/
def answersTo (rule : Rule) : List String :=
  match rule.id with
  | none => [rule.fileKey]
  | some _ => [rule.fileKey, rule.key]

/-- Whether a target of a rule is met by the rule itself. -/
def isSelfTarget (rule : Rule) (target : Target) : Bool :=
  target.key rule.file == rule.key ||
    target.id.isNone && target.key rule.file == rule.fileKey

/-- The indices of the targets whose keys are not among those given. -/
def missing (rule : Rule) (keys : List String) : List Nat :=
  (rule.targetKeys.zipIdx.filter fun (key, _) => key ∉ keys).map (·.2)

/-- The warnings for the targets that a rule meets itself. -/
def selfTargetEvents (rule : Rule) : List Event :=
  (rule.targets.filter rule.isSelfTarget).map fun target =>
    .selfTarget rule.file rule.span (target.key rule.file)

/-- The rule with the targets that none of the keys meets, if there are any. -/
def unsatisfied? (rule : Rule) (keys : List String) : Option UnsatisfiedRule :=
  match rule.missing keys with
  | [] => none
  | missing => some ⟨rule, missing⟩

end Rule

/-- The unsatisfied rules of a map, with what was noticed on the way. -/
structure Verdict where
  unsatisfied : List UnsatisfiedRule
  events : List Event

namespace Verdict

/-- The keys that the present rules answer to. -/
def presentKeys (rules : List Rule) : List String :=
  (rules.filter (·.present)).flatMap (·.answersTo)

/-- The verdict on the rules of a map. -/
def ofMap (map : RuleMap) : Verdict :=
  let rules := map.values.flatten
  let present := rules.filter (·.present)
  let keys := presentKeys rules
  let unsatisfied := present.filterMap (·.unsatisfied? keys)
  ⟨unsatisfied, present.flatMap (·.selfTargetEvents) ++ [.checkedRules unsatisfied.length]⟩

end Verdict

end CoChange
