import CoChange.Report
import CoChange.Text.Style

/-!
# Reports as text

Each unsatisfied rule has a line of its own, followed by a line for each unmet target. The last two
lines sum up.
-/

namespace CoChange

open Text (paint)

def UnsatisfiedRule.text (colored : Bool) (unsatisfied : UnsatisfiedRule) : String :=
  let rule := unsatisfied.rule
  let name := (rule.id.map fun id => " (" ++ paint colored [.cyan] id ++ ")").getD ""
  paint colored [.bold, .red] "ERROR" ++ " " ++
    paint colored [.dimmed] (rule.file ++ ":" ++ rule.span.text) ++ name ++
    " - changed block requires changes in:\n" ++
    "".intercalate (unsatisfied.missingKeys.map fun key =>
      "  " ++ paint colored [.yellow] "missing:" ++ " " ++ key ++ "\n")

def Report.conclusion (colored : Bool) (report : Report) : String :=
  if report.passed then paint colored [.bold, .green] "OK" ++ " All rules satisfied\n"
  else
    paint colored [.bold, .red] (toString report.unsatisfied.length) ++ " unsatisfied rules\n"

def Report.text (colored : Bool) (report : Report) : String :=
  "".intercalate (report.unsatisfied.map (·.text colored)) ++
    (if report.passed then "" else "\n") ++
    "Checked " ++ toString report.rulesChecked ++ " rules in " ++
    toString report.filesChecked ++ " files (" ++ toString report.filesChanged ++ " changed)\n" ++
    report.conclusion colored

end CoChange
