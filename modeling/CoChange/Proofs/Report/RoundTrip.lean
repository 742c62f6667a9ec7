import CoChange.Overrides
import CoChange.Proofs.Catalog
import CoChange.Proofs.Json.Documents
import CoChange.Report.Format
import CoChange.Report.Reader

/-!
# What is written is read back

Overrides and reports are read back from the JSON that they are written as, so two reports that
differ never share a JSON text (`readsBack`). The names of the fields of a structure
differ, which is why a reader of fields in any order finds them (`fields?_record`).
-/

namespace CoChange

/-! ## Parts of a value -/

namespace Json

theorem mapM_eq_some {α β : Type} {f : α → Option β} {g : α → β} {items : List α}
    (each : ∀ item ∈ items, f item = some (g item)) : items.mapM f = some (items.map g) := by
  induction items with
  | nil => rfl
  | cons item items ih =>
    obtain ⟨here, each⟩ := List.forall_mem_cons.1 each
    rw [List.mapM_cons, here, ih each]
    rfl

theorem list?_map {α : Type} {toJson : α → Json} {item? : Json → Option α} {values : List α}
    (each : ∀ value ∈ values, item? (toJson value) = some value) :
    list? item? (.list (values.map toJson)) = some values := by
  have read := mapM_eq_some (g := id) each
  rw [List.map_id] at read
  rw [list?, List.mapM_map]
  exact read

theorem stringOrNull?_stringOrNull (text : Option String) :
    stringOrNull? (some (stringOrNull text)) = some text := by
  cases text <;> rfl

theorem filter_name {members : List (String × Json)} (once : (members.map (·.1)).Nodup)
    {member : String × Json} (mem : member ∈ members) :
    (members.filter fun other => other.1 = member.1) = [member] := by
  induction members with
  | nil => cases mem
  | cons first members ih =>
    obtain ⟨new, tail⟩ := List.nodup_cons.1 once
    obtain rfl | mem := List.mem_cons.1 mem
    · have others : (members.filter fun other => other.1 = member.1) = [] := by
        refine List.filter_eq_nil_iff.2 fun other here => ?_
        rw [decide_eq_true_eq]
        exact fun same => new (List.mem_map.2 ⟨other, here, same⟩)
      rw [List.filter_cons_of_pos (by simp), others]
    · have ne : first.1 ≠ member.1 := fun same =>
        new (List.mem_map.2 ⟨member, mem, same.symm⟩)
      rw [List.filter_cons_of_neg (by simpa using ne), ih tail mem]

/-- A record whose names differ gives back its values. -/
theorem fields?_record {names : List String} {members : List (String × Json)}
    (named : members.map (·.1) = names) (once : names.Nodup) :
    fields? names (.record members) = some (members.map (some ·.2)) := by
  subst named
  rw [fields?, List.mapM_map]
  refine mapM_eq_some fun member mem => ?_
  rw [Function.comp_apply, filter_name once mem]

end Json

/-! ## Structures -/

section

open Json (FitsWithin fields?_record list?_map stringOrNull?_stringOrNull)

theorem Span.ofJson?_toJson (span : Span) : Span.ofJson? span.toJson = some span := by
  unfold Span.ofJson? Span.toJson
  rw [fields?_record]
  · rfl
  · rfl
  · decide

theorem Target.ofJson?_toJson (target : Target) : Target.ofJson? target.toJson = some target := by
  unfold Target.ofJson? Target.toJson
  rw [fields?_record]
  · simp only [List.map_cons, List.map_nil, stringOrNull?_stringOrNull]
    rfl
  · rfl
  · decide

theorem Rule.ofJson?_toJson (rule : Rule) : Rule.ofJson? rule.toJson = some rule := by
  have targets := list?_map fun target (_ : target ∈ rule.targets) => target.ofJson?_toJson
  unfold Rule.ofJson? Rule.toJson
  rw [fields?_record]
  · simp only [List.map_cons, List.map_nil, stringOrNull?_stringOrNull, rule.span.ofJson?_toJson,
      targets]
    rfl
  · rfl
  · decide

theorem UnsatisfiedRule.ofJson?_toJson (unsatisfied : UnsatisfiedRule) :
    UnsatisfiedRule.ofJson? unsatisfied.toJson = some unsatisfied := by
  have missing : Json.list? Json.word? (.list (unsatisfied.missing.map .number)) =
      some unsatisfied.missing :=
    list?_map fun _ _ => rfl
  unfold UnsatisfiedRule.ofJson? UnsatisfiedRule.toJson
  rw [fields?_record]
  · simp only [List.map_cons, List.map_nil, unsatisfied.rule.ofJson?_toJson, missing]
    rfl
  · rfl
  · decide

theorem Report.ofJson?_toJson (report : Report) : Report.ofJson? report.toJson = some report := by
  have unsatisfied := list?_map fun one (_ : one ∈ report.unsatisfied) => one.ofJson?_toJson
  unfold Report.ofJson? Report.toJson
  rw [fields?_record]
  · simp only [List.map_cons, List.map_nil, unsatisfied]
    rfl
  · rfl
  · decide

end

/-! ## Numbers and nesting -/

/-- Whether the ends of a span are words. -/
structure Span.FitsWords (span : Span) : Prop where
  first : span.first ≤ Json.Number.maxWord
  last : span.last ≤ Json.Number.maxWord

/-- Whether the numbers of an unsatisfied rule are words. -/
structure UnsatisfiedRule.FitsWords (unsatisfied : UnsatisfiedRule) : Prop where
  span : unsatisfied.rule.span.FitsWords
  missing : ∀ index ∈ unsatisfied.missing, index ≤ Json.Number.maxWord

/-- Whether the numbers of a report are words. -/
structure Report.FitsWords (report : Report) : Prop where
  filesChanged : report.filesChanged ≤ Json.Number.maxWord
  filesChecked : report.filesChecked ≤ Json.Number.maxWord
  rulesChecked : report.rulesChecked ≤ Json.Number.maxWord
  unsatisfied : ∀ unsatisfied ∈ report.unsatisfied, unsatisfied.FitsWords

section

open Json (FitsWithin)

variable (depth : Nat)

theorem Json.fitsWithin_stringOrNull (text : Option String) :
    FitsWithin depth (stringOrNull text) := by
  cases text with
  | none => exact .null depth
  | some text => exact .string depth text

theorem Span.fitsWithin_toJson {span : Span} (fits : span.FitsWords) :
    FitsWithin (depth + 1) span.toJson :=
  .cons (.number depth fits.first) <| .cons (.number depth fits.last) (.nil depth)

theorem Target.fitsWithin_toJson (target : Target) : FitsWithin (depth + 1) target.toJson :=
  .cons (Json.fitsWithin_stringOrNull depth target.file) <|
    .cons (Json.fitsWithin_stringOrNull depth target.id) (.nil depth)

theorem Rule.fitsWithin_toJson {rule : Rule} (fits : rule.span.FitsWords) :
    FitsWithin (depth + 3) rule.toJson := by
  have span := Span.fitsWithin_toJson (depth + 1) fits
  have targets : FitsWithin (depth + 2) (.list (rule.targets.map Target.toJson)) :=
    .list_map fun target _ => target.fitsWithin_toJson depth
  have id := Json.fitsWithin_stringOrNull (depth + 2) rule.id
  exact .cons (.string _ _) <| .cons span <| .cons targets <| .cons id <|
    .cons (.bool _ _) (.nil _)

theorem UnsatisfiedRule.fitsWithin_toJson {unsatisfied : UnsatisfiedRule}
    (fits : unsatisfied.FitsWords) : FitsWithin (depth + 4) unsatisfied.toJson := by
  have missing : FitsWithin (depth + 3) (.list (unsatisfied.missing.map .number)) :=
    .list_map fun index mem => .number _ (fits.missing index mem)
  exact .cons (Rule.fitsWithin_toJson depth fits.span) <| .cons missing (.nil _)

theorem Report.fitsWithin_toJson {report : Report} (fits : report.FitsWords) :
    FitsWithin (depth + 6) report.toJson := by
  have unsatisfied :
      FitsWithin (depth + 5) (.list (report.unsatisfied.map UnsatisfiedRule.toJson)) :=
    .list_map fun one mem => UnsatisfiedRule.fitsWithin_toJson depth (fits.unsatisfied one mem)
  exact .cons (.number _ fits.filesChanged) <| .cons (.number _ fits.filesChecked) <|
    .cons (.number _ fits.rulesChecked) <| .cons unsatisfied (.nil _)

end

/-! ## Whole texts -/

theorem Overrides.read_text (overrides : Overrides) (layout : Json.Layout) :
    Overrides.read (overrides.toJson.text layout) = .ok overrides := by
  have taken : (Json.Reader.map (Json.Reader.list Json.Reader.string)).Recovers overrides.entries
      overrides.toJson := by
    refine Json.Reader.Recovers.map fun entry _ => ?_
    exact Json.Reader.Recovers.list fun text _ => Json.Reader.recovers_string text
  unfold Overrides.read
  rw [taken.run layout]
  exact congrArg Except.ok (Catalog.ofList_entries overrides)

/-- A report is read back from its text in a JSON format. -/
theorem Report.read?_render {report : Report} (fits : report.FitsWords) {format : Format}
    (json : format ≠ .text) (colored : Bool) :
    Report.read? (report.render format colored) = some report := by
  have read (layout : Json.Layout) : Report.read? (report.toJson.text layout) = some report := by
    unfold Report.read?
    rw [Json.ofText?_text (Report.fitsWithin_toJson 121 fits) layout]
    exact report.ofJson?_toJson
  cases format with
  | text => exact absurd rfl json
  | json => exact read .compact
  | prettyJson => exact read .pretty

/-- Overrides and reports are read back from the JSON texts that they are written as, so reports with
a common JSON text are equal. -/
theorem readsBack :
    (∀ (overrides : Overrides) (layout : Json.Layout),
      Overrides.read (overrides.toJson.text layout) = .ok overrides) ∧
    (∀ report : Report, report.FitsWords → ∀ (format : Format) (colored : Bool), format ≠ .text →
      Report.read? (report.render format colored) = some report) ∧
    ∀ report other : Report, report.FitsWords → other.FitsWords →
      ∀ (format otherFormat : Format) (colored otherColored : Bool),
        format ≠ .text → otherFormat ≠ .text →
        report.render format colored = other.render otherFormat otherColored → report = other := by
  refine ⟨Overrides.read_text, fun report fits format colored json =>
    Report.read?_render fits json colored, ?_⟩
  intro report other fits otherFits format otherFormat colored otherColored json otherJson same
  have read := Report.read?_render fits json colored
  rw [same, Report.read?_render otherFits otherJson otherColored] at read
  exact (Option.some.inj read).symm

/-- Overrides with an empty list, an empty extension and characters that JSON does not write raw. -/
def escapedOverrides : Overrides :=
  .ofList [("", ["\x00\"\\/\x7f{}", "é\n"]), ("none", []), ("😀\t", [""])]

/-- A report with the largest words, with rules that lack names and with empty lists. -/
def widestReport (rules : Nat) : Report :=
  ⟨Nat.pow 2 64 - 1, 0, rules, [⟨⟨"\x1f\\\"é.py", ⟨1, Nat.pow 2 64 - 1⟩,
    [⟨none, none⟩, ⟨some "", some "\r\x08"⟩], none, true⟩, [0, Nat.pow 2 64 - 1]⟩,
    ⟨⟨"", ⟨0, 0⟩, [], some "null", false⟩, []⟩]⟩

theorem fitsWords_widestReport {rules : Nat} (fits : rules ≤ Json.Number.maxWord) :
    (widestReport rules).FitsWords := by
  have words : ∀ unsatisfied ∈ (widestReport rules).unsatisfied,
      unsatisfied.rule.span.first ≤ Json.Number.maxWord ∧
        unsatisfied.rule.span.last ≤ Json.Number.maxWord ∧
        ∀ index ∈ unsatisfied.missing, index ≤ Json.Number.maxWord := by
    show ∀ unsatisfied ∈ (widestReport 0).unsatisfied, _
    decide
  refine ⟨Nat.le_refl _, Nat.zero_le _, fits, fun unsatisfied mem => ?_⟩
  obtain ⟨first, last, missing⟩ := words unsatisfied mem
  exact ⟨⟨first, last⟩, missing⟩

/-- These are read back, and another number of rules gives another text in either format. -/
theorem readsBack_widest :
    Overrides.read (escapedOverrides.toJson.text .pretty) = .ok escapedOverrides ∧
      (widestReport 1).FitsWords ∧ (widestReport 2).FitsWords ∧
      Report.read? ((widestReport 1).render .json true) = some (widestReport 1) ∧
      (widestReport 1).render .json false ≠ (widestReport 2).render .prettyJson true := by
  have one : (widestReport 1).FitsWords := fitsWords_widestReport (by decide)
  have two : (widestReport 2).FitsWords := fitsWords_widestReport (by decide)
  obtain ⟨overrides, reports, distinct⟩ := readsBack
  refine ⟨overrides _ _, one, two, reports _ one .json true (by decide), fun same => ?_⟩
  have eq := distinct _ _ one two .json .prettyJson false true (by decide) (by decide) same
  exact absurd (congrArg Report.rulesChecked eq) (by decide)

end CoChange
