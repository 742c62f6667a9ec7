import CoChange.Verdict

/-!
# Reports

The result of linting a diff: how much was looked at, and the unsatisfied rules.
-/

namespace CoChange

structure Report where
  filesChanged : Nat
  filesChecked : Nat
  rulesChecked : Nat
  unsatisfied : List UnsatisfiedRule
deriving DecidableEq, Repr

/-- The report on the rules that a diff led to. -/
def Report.ofVerdict (changes : Changes) (map : RuleMap) (verdict : Verdict) : Report where
  filesChanged := changes.size
  filesChecked := map.size
  rulesChecked := map.values.flatten.length
  unsatisfied := verdict.unsatisfied

def Report.finishedEvent (report : Report) (hunks : List Hunk) : Event :=
  .finished hunks.length report.filesChecked report.rulesChecked report.unsatisfied.length

/-- Whether every rule that the diff touches is satisfied. -/
def Report.passed (report : Report) : Bool := report.unsatisfied.isEmpty

end CoChange
