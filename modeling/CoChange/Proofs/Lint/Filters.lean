import CoChange.Proofs.Exploration.Seeds
import CoChange.Proofs.Lint.EndToEnd

/-!
# Filters and reports

A filter says where exploring starts, and nothing else. A file that it leaves out is reported on
only if an admitted file leads there (`unsatisfied_admitted_or_led`). A filter that admits fewer
files leaves the verdict on every file that is still reached as it was (`lint_of_narrower`).
-/

namespace CoChange.Lint

/-- The rules of the files that the admitted files lead to. -/
def found (options : Options) (source : Source) (hunks : List Hunk) : Except Fault RuleMap :=
  (Exploration.explore source options.table (.ofHunks hunks)
    (options.admitted (.ofHunks hunks))).outcome

variable {source : Source} {table : TemplateTable} {hunks : List Hunk} {options : Options}

theorem found_eq_ok_iff {map : RuleMap} :
    found options source hunks = .ok map ↔
      Exploration.IsClosure source options.table (.ofHunks hunks)
        ((hunks.map (·.file)).filter options.filter.admits) map :=
  Exploration.explore_eq_ok_iff.trans isClosure_admitted_iff

theorem outcome_lint {diff : String} (read : Hunk.readDiff diff = .ok hunks) :
    (options.lint source diff).outcome =
      (found options source hunks).map fun map => .ofVerdict (.ofHunks hunks) map (.ofMap map) := by
  unfold Options.lint found
  rw [read]
  dsimp only
  cases (Exploration.explore source options.table (.ofHunks hunks)
    (options.admitted (.ofHunks hunks))).outcome <;> rfl

/-- A map that holds everything the admitted files lead to makes a report. -/
theorem lint_eq_ok {diff : String} {map : RuleMap} (read : Hunk.readDiff diff = .ok hunks)
    (explored : found options source hunks = .ok map) :
    (options.lint source diff).outcome = .ok (.ofVerdict (.ofHunks hunks) map (.ofMap map)) := by
  rw [outcome_lint read, explored]
  rfl

/-! ## Reported files -/

theorem file_of_mem_unsatisfied {seeds : List String} {map : RuleMap}
    (closure : Exploration.IsClosure source table (.ofHunks hunks) seeds map)
    (forward : ∀ hunk ∈ hunks, hunk.span.first ≤ hunk.span.last)
    {unsatisfied : UnsatisfiedRule} (mem : unsatisfied ∈ (Verdict.ofMap map).unsatisfied) :
    unsatisfied.rule.file ∈ hunks.map (·.file) ∧ unsatisfied.rule.file ∈ map.names := by
  obtain ⟨rule, hrule, present, rfl, -⟩ := Verdict.mem_unsatisfied.1 mem
  obtain ⟨inMap, hfile⟩ := (mem_rules_iff closure).1 hrule
  obtain ⟨_, _, hunk, hhunk, inFile, _⟩ := (present_iff_touched forward hfile).1 present
  exact ⟨List.mem_map.2 ⟨hunk, hhunk, inFile⟩, inMap⟩

/-- **Rejected files.** Every rule that a report lists lies in a changed file that the filter
admits, or in one to which the targets of an admitted changed file lead. -/
theorem unsatisfied_admitted_or_led {diff : String} {report : Report}
    (linted : (options.lint source diff).outcome = .ok report) :
    ∃ hunks, Hunk.readDiff diff = .ok hunks ∧ ∀ unsatisfied ∈ report.unsatisfied,
      unsatisfied.rule.file ∈ hunks.map (·.file) ∧
      (options.filter.admits unsatisfied.rule.file = true ∨
        ∃ start ∈ hunks.map (·.file), options.filter.admits start = true ∧
          Relation.TransGen (Exploration.Leads source options.table (.ofHunks hunks)) start
            unsatisfied.rule.file) := by
  obtain ⟨hunks, map, read, closure, rfl⟩ := exists_closure linted
  refine ⟨hunks, read, fun unsatisfied mem => ?_⟩
  have forward : ∀ hunk ∈ hunks, hunk.span.first ≤ hunk.span.last :=
    fun hunk mem => (Hunk.normal_of_readDiff read mem).2
  obtain ⟨changed, inMap⟩ := file_of_mem_unsatisfied closure forward mem
  refine ⟨changed, ?_⟩
  obtain ⟨start, hstart, chain⟩ := Exploration.reachable_iff.1 (closure.mem_names_iff.1 inMap)
  obtain ⟨hchanged, admitted⟩ := List.mem_filter.1 hstart
  obtain ⟨hunk, hhunk, rfl⟩ := List.mem_map.1 hchanged
  rw [(Hunk.normal_of_readDiff read hhunk).1] at chain
  rcases Relation.reflTransGen_iff_eq_or_transGen.1 chain with same | chain
  · exact .inl (same ▸ admitted)
  · exact .inr ⟨_, hchanged, admitted, chain⟩

/-- Two files with a rule each that nothing answers, of which the first points at the second. -/
def crossing : Source :=
  .ofTexts [("a.py", "#LINT.IF b.py:z\nx\n#LINT.END\n"), ("b.py", "#LINT.IF :z\ny\n#LINT.END\n")]

/-- A line inside either rule changes. -/
def bothEdits : String :=
  "+++ b/a.py\n@@ -2 +2 @@\n-w\n+x\n+++ b/b.py\n@@ -2 +2 @@\n-w\n+y\n"

/-- The rule of the first file and its target. -/
def firstUnsatisfied : UnsatisfiedRule :=
  ⟨⟨"a.py", ⟨1, 3⟩, [⟨some "b.py", some "z"⟩], none, true⟩, [0]⟩

/-- The rule of the second file and its target. -/
def secondUnsatisfied : UnsatisfiedRule :=
  ⟨⟨"b.py", ⟨1, 3⟩, [⟨none, some "z"⟩], none, true⟩, [0]⟩

/-- The filter that leaves out one file. -/
def leavingOut (file : String) : PathFilter := ⟨[], [⟨file.toList.map .literal⟩]⟩

theorem readDiff_bothEdits :
    Hunk.readDiff bothEdits = .ok [⟨"a.py", ⟨2, 2⟩⟩, ⟨"b.py", ⟨2, 2⟩⟩] :=
  Outcome.eq_ok_of_toOption (by decide +kernel)

/-- Both rules are reported, as the first file leads to the second. -/
theorem lint_leavingOut_second :
    ((⟨.builtIn, leavingOut "b.py"⟩ : Options).lint crossing bothEdits).outcome =
      .ok ⟨2, 2, 2, [firstUnsatisfied, secondUnsatisfied]⟩ :=
  Outcome.eq_ok_of_toOption (by decide +kernel)

/-- The second file is reported on although the filter leaves it out, and the first leads there. -/
theorem unsatisfied_led_crossing :
    let options : Options := ⟨.builtIn, leavingOut "b.py"⟩
    let report : Report := ⟨2, 2, 2, [firstUnsatisfied, secondUnsatisfied]⟩
    (options.lint crossing bothEdits).outcome = .ok report ∧
      secondUnsatisfied ∈ report.unsatisfied ∧
      ∃ hunks, Hunk.readDiff bothEdits = .ok hunks ∧
        ∃ start ∈ hunks.map (·.file), options.filter.admits start = true ∧
          Relation.TransGen (Exploration.Leads crossing options.table (.ofHunks hunks)) start
            "b.py" := by
  intro options report
  refine ⟨lint_leavingOut_second, by decide, ?_⟩
  obtain ⟨hunks, read, each⟩ := unsatisfied_admitted_or_led lint_leavingOut_second
  obtain ⟨-, admitted | led⟩ := each secondUnsatisfied (by decide)
  · have rejected : options.filter.admits "b.py" = false := by decide +kernel
    rw [show secondUnsatisfied.rule.file = "b.py" from rfl, rejected] at admitted
    cases admitted
  · exact ⟨hunks, read, led⟩

/-- A report may list a rule of a file that the filter rejects. -/
theorem exists_unsatisfied_rejected :
    ∃ filter report, PathFilter.read [] ["b.py"] = .ok filter ∧
      ((⟨.builtIn, filter⟩ : Options).lint crossing bothEdits).outcome = .ok report ∧
      ∃ unsatisfied ∈ report.unsatisfied, filter.admits unsatisfied.rule.file = false :=
  ⟨leavingOut "b.py", _, by cbv, lint_leavingOut_second, secondUnsatisfied, by decide,
    by decide +kernel⟩

/-! ## Narrower filters -/

theorem listed_cons (file : String) (files : List String) :
    listed source table hunks (file :: files) =
      listed source table hunks [file] ++ listed source table hunks files := by
  unfold listed
  dsimp only
  rw [List.flatMap_cons, List.flatMap_singleton, List.filter_append, List.map_append]

theorem file_of_mem_listed {file : String} {unsatisfied : UnsatisfiedRule}
    (h : unsatisfied ∈ listed source table hunks [file]) : unsatisfied.rule.file = file := by
  unfold listed at h
  dsimp only at h
  rw [List.flatMap_singleton] at h
  obtain ⟨rule, mem, rfl⟩ := List.mem_map.1 h
  exact file_of_mem_rulesOf (List.mem_filter.1 mem).1

theorem listed_filter (keep : String → Bool) (files : List String) :
    listed source table hunks (files.filter keep) =
      (listed source table hunks files).filter fun unsatisfied => keep unsatisfied.rule.file := by
  induction files with
  | nil => rfl
  | cons file files ih =>
    rw [listed_cons, List.filter_append, ← ih]
    by_cases kept : keep file
    · have all : ∀ unsatisfied ∈ listed source table hunks [file],
          keep unsatisfied.rule.file = true := by
        intro unsatisfied mem
        rw [file_of_mem_listed mem, kept]
      rw [List.filter_cons_of_pos kept, listed_cons, List.filter_eq_self.2 all]
    · have none : ∀ unsatisfied ∈ listed source table hunks [file],
          ¬ keep unsatisfied.rule.file = true := by
        intro unsatisfied mem
        rwa [file_of_mem_listed mem]
      rw [List.filter_cons_of_neg kept, List.filter_eq_nil_iff.2 none, List.nil_append]

/-- **Narrower filters.** If linting succeeds, it succeeds with every filter that admits fewer of
the changed files. The files then reached have the rules that they had, and as long as no name has a
colon, what is reported is the part of the report that is about these files. -/
theorem lint_of_narrower {narrow wide : PathFilter} {diff : String} {report : Report}
    (read : Hunk.readDiff diff = .ok hunks)
    (narrower : ∀ hunk ∈ hunks, narrow.admits hunk.file = true → wide.admits hunk.file = true)
    (linted : (Options.lint ⟨table, wide⟩ source diff).outcome = .ok report) :
    ∃ map part shorter, found ⟨table, wide⟩ source hunks = .ok map ∧
      found ⟨table, narrow⟩ source hunks = .ok part ∧
      (Options.lint ⟨table, narrow⟩ source diff).outcome = .ok shorter ∧
      (∀ file rules, part.get? file = some rules → map.get? file = some rules) ∧
      ((∀ file ∈ map.names, ':' ∉ file.toList) →
        shorter.unsatisfied = report.unsatisfied.filter fun unsatisfied =>
          unsatisfied.rule.file ∈ part.names) := by
  obtain ⟨hunks', map, read', closure, rfl⟩ := exists_closure linted
  obtain rfl : hunks' = hunks := Except.ok.inj (read'.symm.trans read)
  have fewer : ∀ name ∈ (hunks'.map (·.file)).filter narrow.admits,
      name ∈ (hunks'.map (·.file)).filter wide.admits := by
    intro name mem
    obtain ⟨changed, admitted⟩ := List.mem_filter.1 mem
    obtain ⟨hunk, hhunk, rfl⟩ := List.mem_map.1 changed
    exact List.mem_filter.2 ⟨changed, narrower hunk hhunk admitted⟩
  -- The narrower run cannot fail, as all that it reads was read by the wider one.
  obtain ⟨part, hpart⟩ := closure.exists_part fewer
  have explored : found ⟨table, narrow⟩ source hunks' = .ok part := found_eq_ok_iff.2 hpart
  refine ⟨map, part, _, found_eq_ok_iff.2 closure, explored, lint_eq_ok read explored,
    fun file rules => closure.get?_of_subset hpart fewer, fun plain => ?_⟩
  have forward : ∀ hunk ∈ hunks', hunk.span.first ≤ hunk.span.last :=
    fun hunk mem => (Hunk.normal_of_readDiff read mem).2
  have names : part.names = map.names.filter (· ∈ part.names) :=
    closure.names_of_subset hpart fewer
  have inner : ∀ file ∈ part.names, ':' ∉ file.toList := by
    intro file mem
    rw [names] at mem
    exact plain file (List.mem_of_mem_filter mem)
  calc (Verdict.ofMap part).unsatisfied
      = listed source table hunks' part.names := unsatisfied_eq_listed hpart forward inner
    _ = listed source table hunks' (map.names.filter (· ∈ part.names)) := congrArg _ names
    _ = (listed source table hunks' map.names).filter fun unsatisfied =>
          unsatisfied.rule.file ∈ part.names := listed_filter _ _
    _ = (Verdict.ofMap map).unsatisfied.filter fun unsatisfied =>
          unsatisfied.rule.file ∈ part.names := by
      rw [unsatisfied_eq_listed closure forward plain]

theorem names_of_found {map : RuleMap} {names : List String}
    (explored : found options source hunks = .ok map)
    (known : (found options source hunks).toOption.map (·.names) = some names) :
    map.names = names := by
  rw [explored] at known
  exact Option.some.inj known

/-- Without the first file as a start, only the rule of the second is reported, as it was before. -/
theorem lint_of_narrower_leavingOut_first :
    let wide : Options := ⟨.builtIn, .all⟩
    let narrow : Options := ⟨.builtIn, leavingOut "a.py"⟩
    (wide.lint crossing bothEdits).outcome =
      .ok ⟨2, 2, 2, [firstUnsatisfied, secondUnsatisfied]⟩ ∧
    ∃ shorter, (narrow.lint crossing bothEdits).outcome = .ok shorter ∧
      shorter.unsatisfied = [secondUnsatisfied] := by
  intro wide narrow
  have linted : (wide.lint crossing bothEdits).outcome =
      .ok ⟨2, 2, 2, [firstUnsatisfied, secondUnsatisfied]⟩ :=
    Outcome.eq_ok_of_toOption (by decide +kernel)
  refine ⟨linted, ?_⟩
  have narrower : ∀ hunk ∈ ([⟨"a.py", ⟨2, 2⟩⟩, ⟨"b.py", ⟨2, 2⟩⟩] : List Hunk),
      narrow.filter.admits hunk.file = true → wide.filter.admits hunk.file = true :=
    fun _ _ _ => rfl
  obtain ⟨map, part, shorter, whole, rest, shortened, -, unchanged⟩ :=
    lint_of_narrower readDiff_bothEdits narrower linted
  have names : map.names = ["a.py", "b.py"] := names_of_found whole (by decide +kernel)
  have left : part.names = ["b.py"] := names_of_found rest (by decide +kernel)
  refine ⟨shorter, shortened, ?_⟩
  rw [unchanged (names ▸ by decide), left]
  decide

end CoChange.Lint
