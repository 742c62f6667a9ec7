import CoChange.Proofs.Exploration.Course
import CoChange.Proofs.Lint.Filters

/-!
# Covered lines and reports

Linting sees of a diff which files it changes and which of their lines its hunks cover (`Covers`).
Two diffs that agree on these have the same report or the same fault, however their hunks are cut,
ordered or repeated (`lint_congr`). If a diff covers all that another one covers, more files are
checked and more rules are present, and a target that was answered stays answered (`lint_mono`).
-/

namespace CoChange.Lint

/-- A hunk covers the line of the file. -/
def Covers (hunks : List Hunk) (file : String) (line : Nat) : Prop :=
  ∃ hunk ∈ hunks, hunk.file = file ∧ line ∈ hunk.span

/-- A report lists a rule with the index of one of its targets. -/
def Lists (report : Report) (rule : Rule) (index : Nat) : Prop :=
  ∃ unsatisfied ∈ report.unsatisfied, unsatisfied.rule = rule ∧ index ∈ unsatisfied.missing

/-- The same rule, but it may be present where the first one is not. -/
structure Grows (rule other : Rule) : Prop where
  same : other = { rule with present := other.present }
  present : rule.present = true → other.present = true

variable {source : Source} {table : TemplateTable} {options : Options} {hunks others : List Hunk}
  {file : String}

/-! ## Spans and covered lines -/

theorem covers_iff {line : Nat} :
    Covers hunks file line ↔ ∃ span ∈ (Changes.ofHunks hunks).spansOf file, line ∈ span := by
  constructor
  · rintro ⟨hunk, mem, inFile, covered⟩
    exact ⟨hunk.span, Changes.mem_spansOf_ofHunks.2 ⟨hunk, mem, inFile, rfl⟩, covered⟩
  · rintro ⟨span, mem, covered⟩
    obtain ⟨hunk, hhunk, inFile, rfl⟩ := Changes.mem_spansOf_ofHunks.1 mem
    exact ⟨hunk, hhunk, inFile, covered⟩

theorem first_le_last_of_mem_spansOf {diff : String} (read : Hunk.readDiff diff = .ok hunks)
    {span : Span} (mem : span ∈ (Changes.ofHunks hunks).spansOf file) : span.first ≤ span.last := by
  obtain ⟨hunk, hhunk, -, rfl⟩ := Changes.mem_spansOf_ofHunks.1 mem
  exact (Hunk.normal_of_readDiff read hhunk).2

theorem exists_covers {diff : String} (read : Hunk.readDiff diff = .ok hunks)
    (mem : file ∈ hunks.map (·.file)) : ∃ line, Covers hunks file line := by
  obtain ⟨hunk, hhunk, rfl⟩ := List.mem_map.1 mem
  exact ⟨hunk.span.first, hunk, hhunk, rfl, Nat.le_refl _, (Hunk.normal_of_readDiff read hhunk).2⟩

theorem asked_lint {diff : String} (read : Hunk.readDiff diff = .ok hunks) :
    (options.lint source diff).asked =
      (Exploration.explore source options.table (.ofHunks hunks)
        (options.admitted (.ofHunks hunks))).asked := by
  unfold Options.lint
  rw [read]
  dsimp only
  cases (Exploration.explore source options.table (.ofHunks hunks)
    (options.admitted (.ofHunks hunks))).outcome <;> rfl

/-! ## Equal coverage -/

/-- Hunks that cover the same lines give a file the same rules, or the same fault. -/
theorem rulesIn_of_covers_iff {diff other : String} (read : Hunk.readDiff diff = .ok hunks)
    (readOther : Hunk.readDiff other = .ok others)
    (lines : ∀ line, 1 ≤ line → (Covers hunks file line ↔ Covers others file line)) :
    source.rulesIn table ((Changes.ofHunks hunks).spansOf file) file =
      source.rulesIn table ((Changes.ofHunks others).spansOf file) file := by
  refine Source.rulesIn_congr (fun span => first_le_last_of_mem_spansOf read)
    (fun span => first_le_last_of_mem_spansOf readOther) fun line counted => ?_
  rw [← covers_iff, ← covers_iff]
  exact lines line counted

/-- **Equal coverage.** Two diffs that change the same files and cover the same of their lines, as
counted from one, have the same report or the same fault. The runs ask for the same files in the
same order, and each file gives them the same rules or the same fault. -/
theorem lint_congr {diff other : String} (read : Hunk.readDiff diff = .ok hunks)
    (readOther : Hunk.readDiff other = .ok others)
    (files : ∀ file, file ∈ hunks.map (·.file) ↔ file ∈ others.map (·.file))
    (lines : ∀ file line, 1 ≤ line → (Covers hunks file line ↔ Covers others file line)) :
    (options.lint source diff).outcome = (options.lint source other).outcome ∧
      (options.lint source diff).asked = (options.lint source other).asked ∧
      ∀ file, source.rulesIn options.table ((Changes.ofHunks hunks).spansOf file) file =
        source.rulesIn options.table ((Changes.ofHunks others).spansOf file) file := by
  have rules (file : String) :
      source.rulesIn options.table ((Changes.ofHunks hunks).spansOf file) file =
        source.rulesIn options.table ((Changes.ofHunks others).spansOf file) file :=
    rulesIn_of_covers_iff read readOther (lines file)
  have names : (Changes.ofHunks hunks).names = (Changes.ofHunks others).names :=
    Changes.names_ofHunks_congr files
  have explored : Exploration.explore source options.table (.ofHunks hunks)
        (options.admitted (.ofHunks hunks)) =
      Exploration.explore source options.table (.ofHunks others)
        (options.admitted (.ofHunks others)) := by
    rw [Options.admitted, names]
    exact Exploration.explore_congr rules _
  have maps : found options source hunks = found options source others :=
    congrArg Exploration.outcome explored
  -- Beyond the map a report only counts the files that changed.
  have report (map : RuleMap) : Report.ofVerdict (.ofHunks hunks) map (.ofMap map) =
      .ofVerdict (.ofHunks others) map (.ofMap map) := by
    unfold Report.ofVerdict
    rw [← Catalog.length_names, names, Catalog.length_names]
  refine ⟨?_, ?_, rules⟩
  · rw [outcome_lint read, outcome_lint readOther, maps, funext report]
  · rw [asked_lint read, asked_lint readOther, explored]

/-- Lines 2 and 3 change in one hunk. -/
def oneHunk : String := "+++ b/a.py\n@@ -1,0 +2,2 @@\n+x\n+y\n"

/-- The same lines change in a hunk each, the later one first, in sections of their own. -/
def twoHunks : String :=
  "+++ b/a.py\n@@ -1,0 +3 @@\n+y\n+++ b/./a.py\n@@ -1,0 +2 @@\n+x\n"

/-- Cutting the hunk in two does not change the answer. -/
theorem lint_congr_twoHunks :
    let options : Options := ⟨.builtIn, .all⟩
    Hunk.readDiff oneHunk = .ok [⟨"a.py", ⟨2, 3⟩⟩] ∧
      Hunk.readDiff twoHunks = .ok [⟨"a.py", ⟨3, 3⟩⟩, ⟨"a.py", ⟨2, 2⟩⟩] ∧
      (options.lint twoFiles oneHunk).outcome = (options.lint twoFiles twoHunks).outcome := by
  intro options
  have read : Hunk.readDiff oneHunk = .ok [⟨"a.py", ⟨2, 3⟩⟩] :=
    Outcome.eq_ok_of_toOption (by decide +kernel)
  have readOther : Hunk.readDiff twoHunks = .ok [⟨"a.py", ⟨3, 3⟩⟩, ⟨"a.py", ⟨2, 2⟩⟩] :=
    Outcome.eq_ok_of_toOption (by decide +kernel)
  refine ⟨read, readOther, (lint_congr read readOther (fun file => ?_) fun file line _ => ?_).1⟩
  · simp
  · simp only [Covers, List.mem_cons, List.not_mem_nil, or_false, exists_eq_left,
      exists_eq_or_imp, Span.mem_iff]
    rw [← and_or_left]
    refine and_congr_right fun _ => ?_
    omega

/-! ## More coverage -/

theorem admitted_of_covers {diff : String} (admits : String → Bool)
    (read : Hunk.readDiff diff = .ok hunks)
    (more : ∀ file line, Covers hunks file line → Covers others file line) :
    ∀ name ∈ (hunks.map (·.file)).filter admits, name ∈ (others.map (·.file)).filter admits := by
  intro name mem
  obtain ⟨changed, admitted⟩ := List.mem_filter.1 mem
  obtain ⟨line, covered⟩ := exists_covers read changed
  obtain ⟨hunk, hhunk, inFile, -⟩ := more name line covered
  exact List.mem_filter.2 ⟨List.mem_map.2 ⟨hunk, hhunk, inFile⟩, admitted⟩

section

variable {diff other : String} (read : Hunk.readDiff diff = .ok hunks)
  (readOther : Hunk.readDiff other = .ok others)
  (more : ∀ file line, Covers hunks file line → Covers others file line)

include read readOther more

theorem presentIn_of_covers {rules : List Rule}
    (found : source.rulesIn table ((Changes.ofHunks hunks).spansOf file) file = .ok rules)
    {rule : Rule} (mem : rule ∈ rules) (present : rule.present = true) :
    rule.presentIn ((Changes.ofHunks others).spansOf file) = rule := by
  refine Source.presentIn_of_present found (fun span => first_le_last_of_mem_spansOf read)
    (fun span => first_le_last_of_mem_spansOf readOther) mem present fun line covered => ?_
  exact covers_iff.1 (more file line (covers_iff.2 covered))

variable {seeds larger : List String} {map whole : RuleMap}
  (closure : Exploration.IsClosure source table (.ofHunks hunks) seeds map)
  (closureOther : Exploration.IsClosure source table (.ofHunks others) larger whole)
  (fewer : ∀ name ∈ seeds, name ∈ larger)

include closure closureOther fewer

/-- With more coverage a file keeps its rules, and the present ones stay present. -/
theorem exists_grown {rules : List Rule} (found : map.get? file = some rules) :
    ∃ grown, whole.get? file = some grown ∧ List.Forall₂ Grows rules grown := by
  refine ⟨_, closure.get?_of_changes closureOther fewer found, ?_⟩
  refine List.forall₂_map_right_iff.2 (List.forall₂_same.2 fun rule mem => ⟨rfl, fun present => ?_⟩)
  rwa [presentIn_of_covers read readOther more ((closure.get?_iff file rules).1 found).2 mem present]

theorem mem_rules_of_present {rule : Rule} (mem : rule ∈ map.values.flatten)
    (present : rule.present = true) : rule ∈ whole.values.flatten := by
  obtain ⟨file, rules, found, hrule⟩ := Catalog.mem_values_flatten.1 mem
  have got := closure.get?_of_changes closureOther fewer found
  refine Catalog.mem_values_flatten.2 ⟨file, _, got, List.mem_map.2 ⟨rule, hrule, ?_⟩⟩
  have read' := ((closure.get?_iff file rules).1 found).2
  exact presentIn_of_covers read readOther more read' hrule present

end

/-- **More coverage.** If two diffs can be linted and the second covers all lines that the first
covers, then the files checked for the first are also checked for the second, with the same rules,
and the rules present for the first are present for the second. Of the targets of such a rule, the
second report lists none that the first one does not. -/
theorem lint_mono {diff other : String} {report larger : Report}
    (read : Hunk.readDiff diff = .ok hunks) (readOther : Hunk.readDiff other = .ok others)
    (linted : (options.lint source diff).outcome = .ok report)
    (lintedOther : (options.lint source other).outcome = .ok larger)
    (more : ∀ file line, Covers hunks file line → Covers others file line) :
    ∃ map whole, found options source hunks = .ok map ∧ found options source others = .ok whole ∧
      (∀ file ∈ map.names, file ∈ whole.names) ∧
      (∀ file rules, map.get? file = some rules →
        ∃ grown, whole.get? file = some grown ∧ List.Forall₂ Grows rules grown) ∧
      ∀ rule ∈ map.values.flatten, rule.present = true →
        rule ∈ whole.values.flatten ∧ ∀ index, Lists larger rule index → Lists report rule index := by
  obtain ⟨_, map, read', closure, rfl⟩ := exists_closure linted
  obtain rfl := Except.ok.inj (read'.symm.trans read)
  obtain ⟨_, whole, readOther', closureOther, rfl⟩ := exists_closure lintedOther
  obtain rfl := Except.ok.inj (readOther'.symm.trans readOther)
  have fewer := admitted_of_covers options.filter.admits read more
  have grown {file : String} {rules : List Rule} (found : map.get? file = some rules) :=
    exists_grown read readOther more closure closureOther fewer found
  have still {rule : Rule} (mem : rule ∈ map.values.flatten) (present : rule.present = true) :=
    mem_rules_of_present read readOther more closure closureOther fewer mem present
  refine ⟨map, whole, found_eq_ok_iff.2 closure, found_eq_ok_iff.2 closureOther, ?_,
    fun file rules found => grown found, fun rule mem present => ⟨still mem present, ?_⟩⟩
  · intro file mem
    obtain ⟨rules, found⟩ := Catalog.mem_names_iff.1 mem
    obtain ⟨rules', found', -⟩ := grown found
    exact Catalog.mem_names_iff.2 ⟨rules', found'⟩
  · -- More present rules answer to more keys, so fewer targets are missing.
    intro index listed
    refine Verdict.Reports.of_fewer_keys listed mem fun key known => ?_
    obtain ⟨other, hother, hpresent, answers⟩ := Verdict.mem_presentKeys.1 known
    exact Verdict.mem_presentKeys.2 ⟨other, still hother hpresent, hpresent, answers⟩

/-- The rule of the second file is reported once it changes too, beside what was reported before. -/
theorem lint_mono_bothEdits :
    let options : Options := ⟨.builtIn, .all⟩
    let hunks : List Hunk := [⟨"a.py", ⟨2, 2⟩⟩]
    let others : List Hunk := [⟨"a.py", ⟨2, 2⟩⟩, ⟨"b.py", ⟨2, 2⟩⟩]
    let report : Report := ⟨1, 2, 2, [firstUnsatisfied]⟩
    let larger : Report := ⟨2, 2, 2, [firstUnsatisfied, secondUnsatisfied]⟩
    (options.lint crossing oneEdit).outcome = .ok report ∧
      (options.lint crossing bothEdits).outcome = .ok larger ∧
      ∃ map whole, found options crossing hunks = .ok map ∧
        found options crossing others = .ok whole ∧
        (∀ file ∈ map.names, file ∈ whole.names) ∧
        ∀ rule ∈ map.values.flatten, rule.present = true →
          ∀ index, Lists larger rule index → Lists report rule index := by
  intro options hunks others report larger
  have read : Hunk.readDiff oneEdit = .ok hunks := Outcome.eq_ok_of_toOption (by decide +kernel)
  have linted : (options.lint crossing oneEdit).outcome = .ok report :=
    Outcome.eq_ok_of_toOption (by decide +kernel)
  have lintedOther : (options.lint crossing bothEdits).outcome = .ok larger :=
    Outcome.eq_ok_of_toOption (by decide +kernel)
  have more : ∀ file line, Covers hunks file line → Covers others file line := by
    rintro file line ⟨hunk, mem, covers⟩
    exact ⟨hunk, List.mem_cons.2 (.inl (List.mem_singleton.1 mem)), covers⟩
  obtain ⟨map, whole, explored, exploredOther, names, -, fewer⟩ :=
    lint_mono read readDiff_bothEdits linted lintedOther more
  exact ⟨linted, lintedOther, map, whole, explored, exploredOther, names,
    fun rule mem present => (fewer rule mem present).2⟩

end CoChange.Lint
