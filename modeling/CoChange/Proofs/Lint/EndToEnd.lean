import CoChange.Lint
import CoChange.Proofs.Exploration.Closure
import CoChange.Proofs.Hunk.Changes
import CoChange.Proofs.Hunk.Layout
import CoChange.Proofs.Text.ByteOrder
import CoChange.Proofs.Verdict.Satisfaction

/-!
# Reports, end to end

What a report says can be told without the stages that make it: from the hunks of the diff, the
rules of each file and the files that can be reached. A rule is touched when a hunk of its file
covers one of its lines, and a target is answered when its file has a touched rule with the
identifier that it gives (`Answered`). The report lists the touched rules of the files reached
with the targets that nothing answers (`unsatisfied_eq_listed`), provided that no name has a colon.
-/

namespace CoChange.Lint

/-! ## What a report is about -/

/-- A hunk covers a line of the rule. -/
def Touched (hunks : List Hunk) (rule : Rule) : Prop :=
  ∃ line ∈ rule.span, ∃ hunk ∈ hunks, hunk.file = rule.file ∧ line ∈ hunk.span

theorem touched_iff {hunks : List Hunk} {rule : Rule} :
    Touched hunks rule ↔
      ∃ line ∈ List.range' rule.span.first (rule.span.last + 1 - rule.span.first),
        ∃ hunk ∈ hunks, hunk.file = rule.file ∧ line ∈ hunk.span := by
  refine exists_congr fun line => and_congr_left fun _ => ?_
  rw [List.mem_range'_1, Span.mem_iff]
  omega

instance (hunks : List Hunk) (rule : Rule) : Decidable (Touched hunks rule) :=
  decidable_of_iff' _ touched_iff

section

variable (source : Source) (table : TemplateTable) (hunks : List Hunk)

/-- The rules of a file, none for a file that has none to read. -/
def rulesOf (file : String) : List Rule :=
  match source.rulesIn table ((Changes.ofHunks hunks).spansOf file) file with
  | .ok rules => rules
  | .error _ => []

/-- A touched rule in the file of the target has the identifier that the target gives, if it gives
one. -/
def Answered (origin : String) (target : Target) : Prop :=
  ∃ other ∈ rulesOf source table hunks (target.fileKey origin),
    (target.id = none ∨ other.id = target.id) ∧ Touched hunks other

instance (origin : String) (target : Target) :
    Decidable (Answered source table hunks origin target) := by
  unfold Answered; infer_instance

/-- The indices of the targets that nothing answers, in order. -/
def unanswered (rule : Rule) : List Nat :=
  (List.range rule.targets.length).filter fun index =>
    ∃ target ∈ rule.targets[index]?, ¬ Answered source table hunks rule.file target

/-- The rules that a report lists, out of the rules of some files. -/
def listed (files : List String) : List UnsatisfiedRule :=
  let rules := files.flatMap (rulesOf source table hunks)
  (rules.filter fun rule => Touched hunks rule ∧ unanswered source table hunks rule ≠ []).map
    fun rule => ⟨rule, unanswered source table hunks rule⟩

end

/-- The files that a report on hunks is about, in the order of their bytes. Each has rules to read,
one behind the other. -/
structure Checked (options : Options) (source : Source) (hunks : List Hunk)
    (files : List String) : Prop where
  ordered : files.Pairwise fun a b => Text.encode a.toList < Text.encode b.toList
  reachable : ∀ file, file ∈ files ↔
    Exploration.Reachable source options.table (.ofHunks hunks)
      ((hunks.map (·.file)).filter options.filter.admits) file
  readable : ∀ file ∈ files,
    source.rulesIn options.table ((Changes.ofHunks hunks).spansOf file) file =
      .ok (rulesOf source options.table hunks file)
  inOrder : ∀ file ∈ files, (rulesOf source options.table hunks file).Pairwise fun a b =>
    a.span.last < b.span.first

/-! ## Rules of files -/

variable {source : Source} {table : TemplateTable} {hunks : List Hunk}

theorem mem_rulesOf {file : String} {rule : Rule} :
    rule ∈ rulesOf source table hunks file ↔
      ∃ rules, source.rulesIn table ((Changes.ofHunks hunks).spansOf file) file = .ok rules ∧
        rule ∈ rules := by
  unfold rulesOf
  cases source.rulesIn table ((Changes.ofHunks hunks).spansOf file) file with
  | error fault => simp
  | ok rules => simp

theorem file_of_mem_rulesOf {file : String} {rule : Rule}
    (h : rule ∈ rulesOf source table hunks file) : rule.file = file := by
  obtain ⟨rules, read, mem⟩ := mem_rulesOf.1 h
  exact Source.file_of_rulesIn read mem

theorem present_iff_touched (forward : ∀ hunk ∈ hunks, hunk.span.first ≤ hunk.span.last)
    {file : String} {rule : Rule} (h : rule ∈ rulesOf source table hunks file) :
    rule.present = true ↔ Touched hunks rule := by
  obtain ⟨rules, read, mem⟩ := mem_rulesOf.1 h
  have spans : ∀ span ∈ (Changes.ofHunks hunks).spansOf file, span.first ≤ span.last := by
    intro span hspan
    obtain ⟨hunk, hhunk, -, rfl⟩ := Changes.mem_spansOf_ofHunks.1 hspan
    exact forward hunk hhunk
  rw [Source.present_iff_of_rulesIn read spans mem]
  refine exists_congr fun line => and_congr_right fun _ => ?_
  rw [file_of_mem_rulesOf h]
  constructor
  · rintro ⟨span, hspan, covered⟩
    obtain ⟨hunk, hhunk, inFile, rfl⟩ := Changes.mem_spansOf_ofHunks.1 hspan
    exact ⟨hunk, hhunk, inFile, covered⟩
  · rintro ⟨hunk, hhunk, inFile, covered⟩
    exact ⟨hunk.span, Changes.mem_spansOf_ofHunks.2 ⟨hunk, hhunk, inFile, rfl⟩, covered⟩

/-! ## Rules of a map -/

section

variable {seeds : List String} {map : RuleMap}

theorem rulesOf_of_get?
    (closure : Exploration.IsClosure source table (.ofHunks hunks) seeds map) {file : String}
    {rules : List Rule} (found : map.get? file = some rules) :
    rulesOf source table hunks file = rules := by
  have read := ((closure.get?_iff file rules).1 found).2
  unfold rulesOf
  rw [read]

theorem values_flatten_eq
    (closure : Exploration.IsClosure source table (.ofHunks hunks) seeds map) :
    map.values.flatten = map.names.flatMap (rulesOf source table hunks) := by
  have entry : ∀ entry ∈ map.entries, entry.2 = rulesOf source table hunks entry.1 := by
    intro entry mem
    exact (rulesOf_of_get? closure (Catalog.mem_entries_iff.1 mem)).symm
  rw [List.flatMap_def, Catalog.names, List.map_map]
  exact congrArg _ (List.map_congr_left entry)

theorem mem_rules_iff (closure : Exploration.IsClosure source table (.ofHunks hunks) seeds map)
    {rule : Rule} :
    rule ∈ map.values.flatten ↔
      rule.file ∈ map.names ∧ rule ∈ rulesOf source table hunks rule.file := by
  rw [values_flatten_eq closure, List.mem_flatMap]
  constructor
  · rintro ⟨file, mem, hrule⟩
    obtain rfl := file_of_mem_rulesOf hrule
    exact ⟨mem, hrule⟩
  · rintro ⟨mem, hrule⟩
    exact ⟨rule.file, mem, hrule⟩

theorem normalize_file_of_mem
    (closure : Exploration.IsClosure source table (.ofHunks hunks) seeds map) {rule : Rule}
    (mem : rule ∈ map.values.flatten) : Path.normalize rule.file = rule.file :=
  (closure.mem_names_iff.1 ((mem_rules_iff closure).1 mem).1).normalize_eq

theorem answered_iff (closure : Exploration.IsClosure source table (.ofHunks hunks) seeds map)
    (forward : ∀ hunk ∈ hunks, hunk.span.first ≤ hunk.span.last) {rule : Rule}
    (mem : rule ∈ map.values.flatten) {target : Target} (inRule : target ∈ rule.targets) :
    Answered source table hunks rule.file target ↔
      ∃ other ∈ map.values.flatten, other.Meets target rule.file := by
  have known : target.fileKey rule.file ∈ map.names := by
    obtain ⟨name, rules, found, hrule⟩ := Catalog.mem_values_flatten.1 mem
    exact closure.fileKey_mem_names found hrule inRule
  constructor
  · rintro ⟨other, hother, same, touched⟩
    have inFile := file_of_mem_rulesOf hother
    have inMap : other ∈ map.values.flatten := by
      rw [mem_rules_iff closure, inFile]
      exact ⟨known, hother⟩
    refine ⟨other, inMap, (present_iff_touched forward hother).2 touched, ?_, same⟩
    rw [normalize_file_of_mem closure inMap, inFile]
  · rintro ⟨other, inMap, present, inFile, same⟩
    obtain ⟨-, hother⟩ := (mem_rules_iff closure).1 inMap
    rw [normalize_file_of_mem closure inMap] at inFile
    rw [inFile] at hother
    exact ⟨other, hother, same, (present_iff_touched forward hother).1 present⟩

/-- Without colons in names, the targets missing from a map are those that nothing answers. -/
theorem missing_eq_unanswered
    (closure : Exploration.IsClosure source table (.ofHunks hunks) seeds map)
    (forward : ∀ hunk ∈ hunks, hunk.span.first ≤ hunk.span.last)
    (plain : ∀ file ∈ map.names, ':' ∉ file.toList) {rule : Rule}
    (mem : rule ∈ map.values.flatten) :
    rule.missing (Verdict.presentKeys map.values.flatten) =
      unanswered source table hunks rule := by
  refine (rule.missing_ascending _).eq_of_mem_iff (List.pairwise_lt_range.filter _) ?_
  intro index
  have met {target : Target} (inRule : target ∈ rule.targets) :
      target.key rule.file ∉ Verdict.presentKeys map.values.flatten ↔
        ¬ Answered source table hunks rule.file target := by
    obtain ⟨name, rules, found, hrule⟩ := Catalog.mem_values_flatten.1 mem
    have own := plain _ (closure.fileKey_mem_names found hrule inRule)
    rw [answered_iff closure forward mem inRule, Verdict.key_mem_presentKeys_of_colonless own]
    intro other hother
    rw [normalize_file_of_mem closure hother]
    exact plain _ ((mem_rules_iff closure).1 hother).1
  rw [Rule.mem_missing, unanswered, List.mem_filter, List.mem_range, decide_eq_true_eq]
  constructor
  · rintro ⟨target, found, absent⟩
    have inRule := List.mem_of_getElem? found
    exact ⟨(List.getElem?_eq_some_iff.1 found).1, target, found, (met inRule).1 absent⟩
  · rintro ⟨-, target, found, unmet⟩
    exact ⟨target, found, (met (List.mem_of_getElem? found)).2 unmet⟩

theorem unsatisfied_eq_listed
    (closure : Exploration.IsClosure source table (.ofHunks hunks) seeds map)
    (forward : ∀ hunk ∈ hunks, hunk.span.first ≤ hunk.span.last)
    (plain : ∀ file ∈ map.names, ':' ∉ file.toList) :
    (Verdict.ofMap map).unsatisfied = listed source table hunks map.names := by
  have missing (rule : Rule) (mem : rule ∈ map.values.flatten) :=
    missing_eq_unanswered closure forward plain mem
  have kept : ∀ rule ∈ map.values.flatten,
      (rule.present = true ∧ rule.missing (Verdict.presentKeys map.values.flatten) ≠ []) ↔
        Touched hunks rule ∧ unanswered source table hunks rule ≠ [] := by
    intro rule mem
    rw [missing rule mem, present_iff_touched forward ((mem_rules_iff closure).1 mem).2]
  unfold listed
  rw [Verdict.unsatisfied_eq, ← values_flatten_eq closure]
  dsimp only
  rw [List.filter_congr fun rule mem => decide_eq_decide.2 (kept rule mem)]
  refine List.map_congr_left fun rule mem => ?_
  rw [missing rule (List.mem_filter.1 mem).1]

end

/-- Only the names of the admitted files matter, not how the hunks are grouped. -/
theorem isClosure_admitted_iff {options : Options} {map : RuleMap} :
    Exploration.IsClosure source table (.ofHunks hunks) (options.admitted (.ofHunks hunks)) map ↔
      Exploration.IsClosure source table (.ofHunks hunks)
        ((hunks.map (·.file)).filter options.filter.admits) map := by
  refine Exploration.isClosure_congr fun name => ?_
  simp only [Options.admitted, List.mem_map, List.mem_filter, Changes.mem_names_ofHunks]

theorem checked_names {options : Options} {map : RuleMap}
    (closure : Exploration.IsClosure source options.table (.ofHunks hunks)
      ((hunks.map (·.file)).filter options.filter.admits) map) :
    Checked options source hunks map.names := by
  have read : ∀ file ∈ map.names,
      source.rulesIn options.table ((Changes.ofHunks hunks).spansOf file) file =
        .ok (rulesOf source options.table hunks file) := by
    intro file mem
    obtain ⟨rules, found⟩ := Catalog.mem_names_iff.1 mem
    rw [rulesOf_of_get? closure found]
    exact ((closure.get?_iff file rules).1 found).2
  refine ⟨?_, fun file => closure.mem_names_iff, read, fun file mem => ?_⟩
  · refine map.names_ascending.imp ?_
    intro a b less
    exact Text.encode_lt_encode less
  · exact Source.last_lt_first_of_rulesIn (read file mem)

/-- A report comes from hunks and a map with everything that they lead to. -/
theorem exists_closure {options : Options} {diff : String} {report : Report}
    (linted : (options.lint source diff).outcome = .ok report) :
    ∃ hunks map, Hunk.readDiff diff = .ok hunks ∧
      Exploration.IsClosure source options.table (.ofHunks hunks)
        ((hunks.map (·.file)).filter options.filter.admits) map ∧
      report = .ofVerdict (.ofHunks hunks) map (.ofMap map) := by
  unfold Options.lint at linted
  cases read : Hunk.readDiff diff with
  | error fault =>
    rw [read] at linted
    cases linted
  | ok hunks =>
    rw [read] at linted
    dsimp only at linted
    cases explored : (Exploration.explore source options.table (.ofHunks hunks)
        (options.admitted (.ofHunks hunks))).outcome with
    | error fault =>
      rw [explored] at linted
      cases linted
    | ok map =>
      rw [explored] at linted
      cases linted
      exact ⟨hunks, map, rfl,
        isClosure_admitted_iff.1 (Exploration.explore_eq_ok_iff.1 explored), rfl⟩

/-- **Reports.** A report on a diff that can be read is about the files that the admitted changed
files lead to, whose rules it counts. It lists, in the order of the files and of their lines, the
touched rules with a target that nothing answers, and the indices of all such targets, as long as
no name has a colon. Hunks of files that the filter leaves out touch rules as well. -/
theorem lint_describes {options : Options} {source : Source} {diff : String} {report : Report}
    (linted : (options.lint source diff).outcome = .ok report) :
    ∃ hunks files, Hunk.readDiff diff = .ok hunks ∧ Checked options source hunks files ∧
      report.filesChanged = (hunks.map (·.file)).dedup.length ∧
      report.filesChecked = files.length ∧
      report.rulesChecked = (files.flatMap (rulesOf source options.table hunks)).length ∧
      ((∀ file ∈ files, ':' ∉ file.toList) →
        report.unsatisfied = listed source options.table hunks files) := by
  obtain ⟨hunks, map, read, closure, rfl⟩ := exists_closure linted
  refine ⟨hunks, map.names, read, checked_names closure, Changes.size_ofHunks hunks, ?_, ?_, ?_⟩
  · exact (List.length_map _).symm
  · rw [← values_flatten_eq closure]
    rfl
  · exact unsatisfied_eq_listed closure fun hunk mem => (Hunk.normal_of_readDiff read mem).2

/-- Two files with a rule each, of which the first points at the second. -/
def twoFiles : Source :=
  .ofTexts [("a.py", "#LINT.IF b.py\nx\n#LINT.END\n"), ("b.py", "#LINT.IF\ny\n#LINT.END\n")]

/-- A line inside the rule of the first file changes. -/
def oneEdit : String := "+++ b/a.py\n@@ -2 +2 @@\n-w\n+x\n"

/-- The rule that changed is listed with its target, as the second file did not change. -/
theorem lint_describes_oneEdit :
    let options : Options := ⟨.builtIn, .all⟩
    let report : Report :=
      ⟨1, 2, 2, [⟨⟨"a.py", ⟨1, 3⟩, [⟨some "b.py", none⟩], none, true⟩, [0]⟩]⟩
    (options.lint twoFiles oneEdit).outcome = .ok report ∧
      ∃ hunks files, Hunk.readDiff oneEdit = .ok hunks ∧
        Checked options twoFiles hunks files ∧ (∀ file ∈ files, ':' ∉ file.toList) ∧
        report.unsatisfied = listed twoFiles options.table hunks files := by
  intro options report
  have linted : (options.lint twoFiles oneEdit).outcome = .ok report :=
    Outcome.eq_ok_of_toOption (by decide +kernel)
  refine ⟨linted, ?_⟩
  obtain ⟨hunks, files, read, checked, -, -, -, lists⟩ := lint_describes linted
  have edit : Hunk.readDiff oneEdit = .ok [⟨"a.py", ⟨2, 2⟩⟩] :=
    Outcome.eq_ok_of_toOption (by decide +kernel)
  obtain rfl : hunks = [⟨"a.py", ⟨2, 2⟩⟩] := Except.ok.inj (read.symm.trans edit)
  have plain : ∀ file ∈ files, ':' ∉ file.toList := by
    intro file mem
    have known := Source.mem_names_of_rulesIn_ok (checked.readable file mem)
    have colonless : ∀ name ∈ twoFiles.texts.names, ':' ∉ name.toList := by decide +kernel
    exact colonless file known
  exact ⟨_, files, read, checked, plain, lists plain⟩

end CoChange.Lint
