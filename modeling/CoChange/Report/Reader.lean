import CoChange.Json.Document
import CoChange.Report

/-!
# Reports read from JSON

The fields of a structure may come in any order, beside others. A string that can be absent may be
left out.
-/

namespace CoChange

open Json (fields? list? stringOrNull?)

def Span.ofJson? (value : Json) : Option Span :=
  match value.fields? ["start", "end"] with
  | some [some first, some last] => do return ⟨← first.word?, ← last.word?⟩
  | _ => none

def Target.ofJson? (value : Json) : Option Target :=
  match value.fields? ["file", "id"] with
  | some [file, id] => do return ⟨← stringOrNull? file, ← stringOrNull? id⟩
  | _ => none

def Rule.ofJson? (value : Json) : Option Rule :=
  match value.fields? ["file", "range", "targets", "id", "present"] with
  | some [some file, some span, some targets, id, some present] => do
    return ⟨← file.string?, ← Span.ofJson? span, ← targets.list? Target.ofJson?,
      ← stringOrNull? id, ← present.bool?⟩
  | _ => none

def UnsatisfiedRule.ofJson? (value : Json) : Option UnsatisfiedRule :=
  match value.fields? ["rule", "target_indices"] with
  | some [some rule, some missing] => do
    return ⟨← Rule.ofJson? rule, ← missing.list? Json.word?⟩
  | _ => none

def Report.ofJson? (value : Json) : Option Report :=
  match value.fields? ["files_changed", "files_checked", "rules_checked", "unsatisfied"] with
  | some [some changed, some checked, some rules, some unsatisfied] => do
    return ⟨← changed.word?, ← checked.word?, ← rules.word?,
      ← unsatisfied.list? UnsatisfiedRule.ofJson?⟩
  | _ => none

/-- The report that a JSON document writes. -/
def Report.read? (text : String) : Option Report := (Json.ofText? text).bind Report.ofJson?

end CoChange
