import CoChange.Json.Value
import CoChange.Report

/-!
# Reports as JSON

Every structure is a record with its fields in a fixed order; what is absent is null.
-/

namespace CoChange

def Span.toJson (span : Span) : Json :=
  .record [("start", .number span.first), ("end", .number span.last)]

def Target.toJson (target : Target) : Json :=
  .record [("file", .stringOrNull target.file), ("id", .stringOrNull target.id)]

def Rule.toJson (rule : Rule) : Json :=
  .record
    [("file", .string rule.file), ("range", rule.span.toJson),
      ("targets", .list (rule.targets.map Target.toJson)), ("id", .stringOrNull rule.id),
      ("present", .bool rule.present)]

def UnsatisfiedRule.toJson (unsatisfied : UnsatisfiedRule) : Json :=
  .record
    [("rule", unsatisfied.rule.toJson),
      ("target_indices", .list (unsatisfied.missing.map .number))]

def Report.toJson (report : Report) : Json :=
  .record
    [("files_changed", .number report.filesChanged), ("files_checked", .number report.filesChecked),
      ("rules_checked", .number report.rulesChecked),
      ("unsatisfied", .list (report.unsatisfied.map UnsatisfiedRule.toJson))]

end CoChange
