import CoChange.CommandLine
import CoChange.Disk.Tree
import CoChange.Proofs.CommandLine.Values
import CoChange.Proofs.Lint.Filters
import CoChange.Proofs.Template.Registration

/-!
# Stages of a run

A run takes nine stages in order, each of which can fail for a reason of its own (`Fails`). It fails
as the first of them that does, and otherwise leaves the report that linting gives for the options
which the arguments denote (`run_reports`). The format and whether it is verbose make no difference to
that, nor does the order of different options.
-/

namespace CoChange

/-! ## Steps that fail in stages -/

section Steps

variable {Stage α β : Type} {fails : Stage → Fault → Prop} {stages rest : List Stage} {fault : Fault}

/-- The fault of the first of some stages that fails. -/
def FirstFault (fails : Stage → Fault → Prop) : List Stage → Fault → Prop
  | [], _ => False
  | stage :: rest, fault =>
    fails stage fault ∨ (∀ other, ¬fails stage other) ∧ FirstFault fails rest fault

theorem exists_firstFault_iff :
    (∃ fault, FirstFault fails stages fault) ↔ ∃ stage ∈ stages, ∃ fault, fails stage fault := by
  induction stages with
  | nil => simp [FirstFault]
  | cons stage stages ih =>
    rw [List.exists_mem_cons_iff, ← ih]
    constructor
    · rintro ⟨fault, here | ⟨-, later⟩⟩
      · exact .inl ⟨fault, here⟩
      · exact .inr ⟨fault, later⟩
    · rintro (⟨fault, here⟩ | ⟨fault, later⟩)
      · exact ⟨fault, .inl here⟩
      · by_cases here : ∃ other, fails stage other
        · exact here.imp fun _ => .inl
        · exact ⟨fault, .inr ⟨not_exists.1 here, later⟩⟩

theorem firstFault_append :
    FirstFault fails (stages ++ rest) fault ↔
      FirstFault fails stages fault ∨
        (∀ other, ¬FirstFault fails stages other) ∧ FirstFault fails rest fault := by
  induction stages with
  | nil => simp [FirstFault]
  | cons stage stages ih =>
    rw [List.cons_append]
    simp only [FirstFault, ih]
    constructor
    · rintro (here | ⟨passed, later | ⟨free, later⟩⟩)
      · exact .inl (.inl here)
      · exact .inl (.inr ⟨passed, later⟩)
      · refine .inr ⟨fun other => ?_, later⟩
        rintro (here | ⟨-, failed⟩)
        · exact passed other here
        · exact free other failed
    · rintro ((here | ⟨passed, later⟩) | ⟨free, later⟩)
      · exact .inl here
      · exact .inr ⟨passed, .inl later⟩
      · have passed : ∀ other, ¬fails stage other := fun other here => free other (.inl here)
        exact .inr ⟨passed, .inr ⟨fun other failed => free other (.inr ⟨passed, failed⟩), later⟩⟩

/-- A step that fails as the first of some stages that does. -/
def FailsAs (fails : Stage → Fault → Prop) (stages : List Stage) (step : Except Fault α) : Prop :=
  ∀ fault, step = .error fault ↔ FirstFault fails stages fault

theorem FailsAs.of_stage {stage : Stage} {step : Except Fault α}
    (h : ∀ fault, fails stage fault ↔ step = .error fault) : FailsAs fails [stage] step := by
  intro fault
  rw [← h]
  simp [FirstFault]

theorem FailsAs.of_passed {value : α} (h : ∀ stage ∈ stages, ∀ fault, ¬fails stage fault) :
    FailsAs fails stages (.ok value) := by
  refine fun fault => ⟨fun eq => (nomatch eq), fun failed => ?_⟩
  obtain ⟨stage, mem, fault, here⟩ := exists_firstFault_iff.1 ⟨fault, failed⟩
  exact absurd here (h stage mem fault)

/-- Steps in a row fail in the stages of the first and then in those of the second one. -/
theorem FailsAs.bind {step : Except Fault α} {next : α → Except Fault β}
    (first : FailsAs fails stages step)
    (second : ∀ value, step = .ok value → FailsAs fails rest (next value)) :
    FailsAs fails (stages ++ rest) (step >>= next) := by
  intro fault
  rw [Outcome.bind_eq_error_iff, firstFault_append, first]
  refine or_congr_right ?_
  constructor
  · rintro ⟨value, passed, failed⟩
    refine ⟨fun other earlier => ?_, (second value passed fault).1 failed⟩
    rw [(first other).2 earlier] at passed
    cases passed
  · rintro ⟨free, failed⟩
    cases passed : step with
    | error other => exact absurd ((first other).1 passed) (free other)
    | ok value => exact ⟨value, rfl, (second value passed fault).2 failed⟩

theorem FailsAs.map {step : Except Fault α} (h : FailsAs fails stages step) (f : α → β) :
    FailsAs fails stages (step.map f) := fun fault =>
  Outcome.map_eq_error_iff.trans (h fault)

theorem exists_eq_some_iff {place : Option α} {value : α} (h : place = some value)
    {p : α → Prop} : (∃ other, place = some other ∧ p other) ↔ p value := by
  subst h
  simp

theorem exists_eq_ok_iff {step : Except Fault α} {value : α} (h : step = .ok value)
    {p : α → Prop} : (∃ other, step = .ok other ∧ p other) ↔ p value := by
  subst h
  simp

end Steps

/-! ## What arguments denote -/

namespace Overrides

theorem readFile_eq_ok_iff {path text : String} {overrides : Overrides} :
    readFile path text = .ok overrides ↔ read text = .ok overrides := by
  unfold readFile read
  cases (Json.Reader.map (Json.Reader.list Json.Reader.string)).run text.toList <;> simp

theorem readFile_eq_error_iff {path text : String} {fault : Fault} :
    readFile path text = .error fault ↔
      ∃ flaw, read text = .error (.badOverrides flaw) ∧ fault = .badOverridesFile path flaw := by
  unfold readFile read
  cases (Json.Reader.map (Json.Reader.list Json.Reader.string)).run text.toList <;>
    simp [eq_comm]

/-- Overrides are refused for the first of their texts that writes no template. -/
theorem apply_eq_error_iff {overrides : Overrides} {table : TemplateTable} {fault : Fault} :
    overrides.apply table = .error fault ↔
      ∃ text, (overrides.pairs.map (·.2)).find? ('?' ∉ ·.toList) = some text ∧
        fault = .noPlaceholder text := by
  rw [apply_eq]
  induction overrides.pairs generalizing table with
  | nil => simp [pure, Except.pure]
  | cons pair rest ih =>
    rw [List.foldlM_cons, Outcome.bind_eq_error_iff, TemplateTable.register_eq_error_iff,
      List.map_cons]
    by_cases marked : '?' ∈ pair.2.toList
    · rw [List.find?_cons_of_neg (by simpa using marked)]
      cases step : table.register pair.1 pair.2 with
      | error other => exact absurd marked (TemplateTable.register_eq_error_iff.1 step).1
      | ok next => simp [marked, ih]
    · rw [List.find?_cons_of_pos (by simpa using marked)]
      have refused : table.register pair.1 pair.2 = .error (.noPlaceholder pair.2) :=
        TemplateTable.register_eq_error_iff.2 ⟨marked, rfl⟩
      simp [marked, refused, eq_comm]

end Overrides

/-- What a run does, in order. -/
inductive Stage where
  | readOverrides
  | parseOverrides
  | registerOverrides
  | registerFallback
  | readIncluded
  | readExcluded
  | readDiff
  | parseDiff
  | explore
deriving DecidableEq, Repr

def Stage.inOrder : List Stage :=
  [.readOverrides, .parseOverrides, .registerOverrides, .registerFallback, .readIncluded,
    .readExcluded, .readDiff, .parseDiff, .explore]

namespace Arguments

section

variable (arguments : Arguments) (disk : Disk) (input : List UInt8)

/-- The overrides of a file, or none at all if no file is named. -/
def GivesOverrides (overrides : Overrides) : Prop :=
  match arguments.overrides with
  | none => overrides = ∅
  | some path => ∃ text, disk.readText path = .ok text ∧ Overrides.read text = .ok overrides

/-- The options that arguments denote: the built-in templates with the overrides and then with the
template for the rest, and the globs. -/
structure Denotes (options : Options) : Prop where
  table : ∃ overrides, arguments.GivesOverrides disk overrides ∧
    (.overrides overrides :: arguments.fallback.toList.map .fallback).foldlM Registration.make
      .builtIn = .ok options.table
  included : PathFilter.readGlobs arguments.included = .ok options.filter.included
  excluded : PathFilter.readGlobs arguments.excluded = .ok options.filter.excluded

/-- The ways in which a stage fails. A stage that needs what earlier ones make fails only if they
succeed. -/
def Fails : Stage → Fault → Prop
  | .readOverrides, fault =>
    ∃ path, arguments.overrides = some path ∧ disk.readText path = .error fault
  | .parseOverrides, fault =>
    ∃ path text flaw, arguments.overrides = some path ∧ disk.readText path = .ok text ∧
      Overrides.read text = .error (.badOverrides flaw) ∧ fault = .badOverridesFile path flaw
  | .registerOverrides, fault =>
    ∃ overrides text, arguments.GivesOverrides disk overrides ∧
      (overrides.pairs.map (·.2)).find? ('?' ∉ ·.toList) = some text ∧ fault = .noPlaceholder text
  | .registerFallback, fault =>
    ∃ text, arguments.fallback = some text ∧ '?' ∉ text.toList ∧ fault = .noPlaceholder text
  | .readIncluded, fault => PathFilter.readGlobs arguments.included = .error fault
  | .readExcluded, fault => PathFilter.readGlobs arguments.excluded = .error fault
  | .readDiff, fault => ∃ path, arguments.diff = some path ∧ disk.readDiff path = .error fault
  | .parseDiff, fault =>
    ∃ diff, arguments.diffText disk input = .ok diff ∧ Hunk.readDiff diff = .error fault
  | .explore, fault =>
    ∃ options diff hunks, arguments.Denotes disk options ∧
      arguments.diffText disk input = .ok diff ∧ Hunk.readDiff diff = .ok hunks ∧
      Lint.found options (disk.below arguments.rootPath) hunks = .error fault

/-- Whether linting with the options that arguments denote makes a report. -/
def LintsTo (report : Report) : Prop :=
  ∃ options diff, arguments.Denotes disk options ∧ arguments.diffText disk input = .ok diff ∧
    (options.lint (disk.below arguments.rootPath) diff).outcome = .ok report

end

variable {arguments : Arguments} {disk : Disk} {input : List UInt8}

/-! ## Options -/

theorem tableWithOverrides_eq_ok_iff {table : TemplateTable} :
    arguments.tableWithOverrides disk = .ok table ↔
      ∃ overrides, arguments.GivesOverrides disk overrides ∧
        overrides.apply .builtIn = .ok table := by
  unfold tableWithOverrides GivesOverrides
  cases arguments.overrides with
  | none =>
    constructor
    · exact fun h => ⟨∅, rfl, h⟩
    · rintro ⟨_, rfl, h⟩
      exact h
  | some path =>
    dsimp only
    simp only [Outcome.bind_eq_ok_iff, Overrides.readFile_eq_ok_iff]
    constructor
    · rintro ⟨text, read, overrides, parsed, applied⟩
      exact ⟨overrides, ⟨text, read, parsed⟩, applied⟩
    · rintro ⟨overrides, ⟨text, read, parsed⟩, applied⟩
      exact ⟨text, read, overrides, parsed, applied⟩

theorem table_eq : arguments.table disk = arguments.tableWithOverrides disk >>= fun table =>
    (arguments.fallback.toList.map .fallback).foldlM Registration.make table := by
  unfold Arguments.table
  refine bind_congr fun table => ?_
  cases arguments.fallback with
  | none => rfl
  | some text => exact (bind_pure (table.registerFallback text)).symm

theorem table_eq_ok_iff {table : TemplateTable} :
    arguments.table disk = .ok table ↔
      ∃ overrides, arguments.GivesOverrides disk overrides ∧
        (.overrides overrides :: arguments.fallback.toList.map .fallback).foldlM
          Registration.make .builtIn = .ok table := by
  rw [table_eq, Outcome.bind_eq_ok_iff]
  simp only [tableWithOverrides_eq_ok_iff, List.foldlM_cons, Registration.make,
    Outcome.bind_eq_ok_iff]
  constructor
  · rintro ⟨overridden, ⟨overrides, given, applied⟩, made⟩
    exact ⟨overrides, given, overridden, applied, made⟩
  · rintro ⟨overrides, given, overridden, applied, made⟩
    exact ⟨overridden, ⟨overrides, given, applied⟩, made⟩

theorem options_eq : arguments.options disk =
    arguments.table disk >>= fun table => PathFilter.readGlobs arguments.included >>= fun included =>
      (PathFilter.readGlobs arguments.excluded).map fun excluded => ⟨table, ⟨included, excluded⟩⟩ := by
  unfold Arguments.options PathFilter.read
  refine bind_congr fun table => ?_
  cases PathFilter.readGlobs arguments.included with
  | error fault => rfl
  | ok included => cases PathFilter.readGlobs arguments.excluded <;> rfl

theorem options_eq_ok_iff {options : Options} :
    arguments.options disk = .ok options ↔ arguments.Denotes disk options := by
  rw [options_eq]
  simp only [Outcome.bind_eq_ok_iff, Outcome.map_eq_ok_iff]
  constructor
  · rintro ⟨table, made, included, readIncluded, excluded, readExcluded, rfl⟩
    exact ⟨table_eq_ok_iff.1 made, readIncluded, readExcluded⟩
  · rintro ⟨made, readIncluded, readExcluded⟩
    exact ⟨_, table_eq_ok_iff.2 made, _, readIncluded, _, readExcluded, rfl⟩

/-! ## Faults -/

theorem failsAs_tableWithOverrides :
    FailsAs (arguments.Fails disk input) [.readOverrides, .parseOverrides, .registerOverrides]
      (arguments.tableWithOverrides disk) := by
  cases named : arguments.overrides with
  | none =>
    -- Without a file of overrides none of the three stages can fail.
    have nothing : arguments.tableWithOverrides disk = .ok .builtIn := by
      unfold tableWithOverrides
      rw [named]
    rw [nothing]
    refine .of_passed ?_
    simp only [List.forall_mem_cons, List.not_mem_nil, false_implies, implies_true, and_true]
    refine ⟨?_, ?_, ?_⟩
    · rintro fault ⟨path, named', -⟩
      cases named.symm.trans named'
    · rintro fault ⟨path, text, flaw, named', -⟩
      cases named.symm.trans named'
    · rintro fault ⟨overrides, text, given, found, -⟩
      unfold GivesOverrides at given
      rw [named] at given
      subst given
      cases found
  | some path =>
    have steps : arguments.tableWithOverrides disk =
        disk.readText path >>= fun text => Overrides.readFile path text >>= fun overrides =>
          overrides.apply .builtIn := by
      unfold tableWithOverrides
      rw [named]
    have given {overrides : Overrides} : arguments.GivesOverrides disk overrides ↔
        ∃ text, disk.readText path = .ok text ∧ Overrides.read text = .ok overrides := by
      unfold GivesOverrides
      rw [named]
    -- Each step is a stage of its own, with what the steps before it made at hand.
    rw [steps]
    refine FailsAs.bind (.of_stage fun fault => exists_eq_some_iff named) fun text read =>
      FailsAs.bind (.of_stage fun fault => ?_) fun overrides parsed => .of_stage fun fault => ?_
    · rw [Overrides.readFile_eq_error_iff]
      constructor
      · rintro ⟨other, text', flaw, named', read', failed, rfl⟩
        cases named.symm.trans named'
        cases read.symm.trans read'
        exact ⟨flaw, failed, rfl⟩
      · rintro ⟨flaw, failed, rfl⟩
        exact ⟨path, text, flaw, named, read, failed, rfl⟩
    · have parsed := Overrides.readFile_eq_ok_iff.1 parsed
      rw [Overrides.apply_eq_error_iff]
      constructor
      · rintro ⟨overrides', unmarked, gives, found, rfl⟩
        obtain ⟨text', read', parsed'⟩ := given.1 gives
        cases read.symm.trans read'
        cases parsed.symm.trans parsed'
        exact ⟨unmarked, found, rfl⟩
      · rintro ⟨unmarked, found, rfl⟩
        exact ⟨overrides, unmarked, given.2 ⟨text, read, parsed⟩, found, rfl⟩

/-- To register the template for the rest fails for reasons of its own, whatever the table. -/
theorem failsAs_fallback (table : TemplateTable) :
    FailsAs (arguments.Fails disk input) [.registerFallback]
      ((arguments.fallback.toList.map .fallback).foldlM Registration.make table) := by
  cases named : arguments.fallback with
  | none =>
    refine .of_passed fun stage mem fault fails => ?_
    cases List.mem_singleton.1 mem
    obtain ⟨text, named', -⟩ := fails
    cases named.symm.trans named'
  | some text =>
    have only : ((some text).toList.map .fallback).foldlM Registration.make table =
        table.registerFallback text := bind_pure _
    rw [only]
    refine .of_stage fun fault => Iff.trans ?_ TemplateTable.registerFallback_eq_error_iff.symm
    exact exists_eq_some_iff named

theorem failsAs_options :
    FailsAs (arguments.Fails disk input)
      [.readOverrides, .parseOverrides, .registerOverrides, .registerFallback, .readIncluded,
        .readExcluded] (arguments.options disk) := by
  have table : FailsAs (arguments.Fails disk input)
      ([.readOverrides, .parseOverrides, .registerOverrides] ++ [.registerFallback])
      (arguments.table disk) := by
    rw [table_eq]
    exact failsAs_tableWithOverrides.bind fun table _ => failsAs_fallback table
  rw [options_eq]
  exact table.bind fun table _ => FailsAs.bind (.of_stage fun _ => Iff.rfl) fun included _ =>
    .map (.of_stage fun _ => Iff.rfl) _

theorem failsAs_diffText :
    FailsAs (arguments.Fails disk input) [.readDiff] (arguments.diffText disk input) := by
  unfold diffText
  cases named : arguments.diff with
  | none =>
    refine .of_passed fun stage mem fault fails => ?_
    cases List.mem_singleton.1 mem
    obtain ⟨path, named', -⟩ := fails
    cases named.symm.trans named'
  | some path => exact .of_stage fun fault => exists_eq_some_iff named

/-! ## Runs -/

theorem outcome_lint_eq : (arguments.lint disk input).outcome =
    arguments.options disk >>= fun options => arguments.diffText disk input >>= fun diff =>
      (options.lint (disk.below arguments.rootPath) diff).outcome := by
  unfold Arguments.lint
  cases arguments.options disk with
  | error fault => rfl
  | ok options => cases arguments.diffText disk input <;> rfl

theorem lintsTo_iff {report : Report} :
    arguments.LintsTo disk input report ↔ (arguments.lint disk input).outcome = .ok report := by
  rw [outcome_lint_eq]
  simp only [Outcome.bind_eq_ok_iff, options_eq_ok_iff]
  constructor
  · rintro ⟨options, diff, denotes, read, linted⟩
    exact ⟨options, denotes, diff, read, linted⟩
  · rintro ⟨options, denotes, diff, read, linted⟩
    exact ⟨options, diff, denotes, read, linted⟩

theorem outcome_lint_eq_bind (options : Options) (source : Source) (diff : String) :
    (options.lint source diff).outcome = Hunk.readDiff diff >>= fun hunks =>
      (Lint.found options source hunks).map fun map =>
        .ofVerdict (.ofHunks hunks) map (.ofMap map) := by
  cases parsed : Hunk.readDiff diff with
  | error fault =>
    unfold Options.lint
    rw [parsed]
    rfl
  | ok hunks => exact Lint.outcome_lint parsed

/-- A run fails as the first of its stages that does. -/
theorem failsAs_lint :
    FailsAs (arguments.Fails disk input) Stage.inOrder (arguments.lint disk input).outcome := by
  rw [outcome_lint_eq]
  refine failsAs_options.bind fun options denoted => ?_
  have denotes := options_eq_ok_iff.1 denoted
  refine failsAs_diffText.bind fun diff read => ?_
  rw [outcome_lint_eq_bind]
  refine FailsAs.bind (.of_stage fun fault => exists_eq_ok_iff read) fun hunks parsed =>
    .map (.of_stage fun fault => ?_) _
  constructor
  · rintro ⟨options', diff', hunks', denotes', read', parsed', failed⟩
    cases denoted.symm.trans (options_eq_ok_iff.2 denotes')
    cases read.symm.trans read'
    cases parsed.symm.trans parsed'
    exact failed
  · exact fun failed => ⟨options, diff, hunks, denotes, read, parsed, failed⟩

/-- Neither the format nor whether it is verbose makes a difference to linting. -/
theorem lint_eq_of_valuesAt {other : Arguments}
    (same : ∀ setting ≠ .format, other.valuesAt setting = arguments.valuesAt setting) :
    other.lint disk input = arguments.lint disk input := by
  rw [eq_of_valuesAt same]
  rfl

theorem run_congr {other : Arguments}
    (same : (other.lint disk input).outcome = (arguments.lint disk input).outcome) :
    (other.run disk input).code = (arguments.run disk input).code ∧
      (other.run disk input).fault = (arguments.run disk input).fault := by
  unfold Arguments.run
  dsimp only
  rw [same]
  cases (arguments.lint disk input).outcome <;> exact ⟨rfl, rfl⟩

theorem run_of_ok {report : Report} (linted : (arguments.lint disk input).outcome = .ok report) :
    (arguments.run disk input).code = (if report.unsatisfied = [] then 0 else 1) ∧
      (arguments.run disk input).output =
        report.render (arguments.format.getD .text) false ++ "\n" ∧
      (arguments.run disk input).fault = none := by
  unfold Arguments.run Report.passed
  dsimp only
  rw [linted]
  simp only [List.isEmpty_iff]
  exact ⟨trivial, trivial, trivial⟩

theorem run_of_error {fault : Fault} (failed : (arguments.lint disk input).outcome = .error fault) :
    (arguments.run disk input).code = 2 ∧ (arguments.run disk input).output = "" ∧
      (arguments.run disk input).fault = some fault := by
  unfold Arguments.run
  dsimp only
  rw [failed]
  exact ⟨rfl, rfl, rfl⟩

theorem run_iff (arguments : Arguments) (disk : Disk) (input : List UInt8) :
    ((arguments.run disk input).code = 0 ↔
      ∃ report, arguments.LintsTo disk input report ∧ report.unsatisfied = []) ∧
    ((arguments.run disk input).code = 1 ↔
      ∃ report, arguments.LintsTo disk input report ∧ report.unsatisfied ≠ []) ∧
    ((arguments.run disk input).code = 2 ↔
      ∃ stage fault, arguments.Fails disk input stage fault) ∧
    ∀ fault, (arguments.run disk input).fault = some fault ↔
      FirstFault (arguments.Fails disk input) Stage.inOrder fault := by
  -- Some stage fails exactly when a first one does.
  have every : (∃ stage fault, arguments.Fails disk input stage fault) ↔
      ∃ fault, (arguments.lint disk input).outcome = .error fault := by
    have all (stage : Stage) : stage ∈ Stage.inOrder := by cases stage <;> decide
    have first : (∃ fault, FirstFault (arguments.Fails disk input) Stage.inOrder fault) ↔
        ∃ stage ∈ Stage.inOrder, ∃ fault, arguments.Fails disk input stage fault :=
      exists_firstFault_iff
    simp only [all, true_and] at first
    rw [← first]
    exact exists_congr fun fault => (failsAs_lint fault).symm
  simp only [every, lintsTo_iff, ← failsAs_lint _]
  cases linted : (arguments.lint disk input).outcome with
  | error fault =>
    obtain ⟨code, -, told⟩ := run_of_error linted
    rw [code, told]
    simp
  | ok report =>
    obtain ⟨code, -, told⟩ := run_of_ok linted
    rw [code, told]
    by_cases satisfied : report.unsatisfied = [] <;> simp [satisfied]

end Arguments

namespace CommandLine

variable {spelled : List String} {arguments : Arguments} {disk : Disk} {input : List UInt8}

theorem run_eq (asked : Arguments.read spelled = some (.lint arguments)) :
    run spelled disk input = arguments.run disk input := by
  unfold run
  rw [asked]

/-- **Runs.** Of arguments that ask for linting, the exit code is 0 if linting succeeds with no
unsatisfied rule, 1 if it succeeds with some and 2 if a stage fails, and the fault is that of the first
stage that fails. A report is printed in the format that is asked for, and nothing else is. The
arguments hold the values of the options that they spell. The same options in another order leave the
same behind, and options with other formats, verbose or not, the same code and the same fault. -/
theorem run_reports (disk : Disk) (input : List UInt8)
    (asked : Arguments.read spelled = some (.lint arguments)) :
    let outcome := run spelled disk input
    (outcome.code = 0 ↔
      ∃ report, arguments.LintsTo disk input report ∧ report.unsatisfied = []) ∧
    (outcome.code = 1 ↔
      ∃ report, arguments.LintsTo disk input report ∧ report.unsatisfied ≠ []) ∧
    (outcome.code = 2 ↔ ∃ stage fault, arguments.Fails disk input stage fault) ∧
    (∀ fault, outcome.fault = some fault ↔
      FirstFault (arguments.Fails disk input) Stage.inOrder fault) ∧
    (∀ report, arguments.LintsTo disk input report → outcome.fault = none ∧
      outcome.output = report.render (arguments.format.getD .text) false ++ "\n") ∧
    (outcome.code = 2 → outcome.output = "") ∧
    (∃ given, Spells given spelled) ∧
    ∀ given, Spells given spelled →
      arguments.Collects given ∧
      (∀ other otherSpelled, Spells other otherSpelled → Arguments.Rearranges given other →
        run otherSpelled disk input = outcome) ∧
      ∀ other otherSpelled otherArguments, Spells other otherSpelled →
        Arguments.read otherSpelled = some (.lint otherArguments) →
        (∀ setting ≠ .format, Given.valuesOf setting other = Given.valuesOf setting given) →
        (run otherSpelled disk input).code = outcome.code ∧
          (run otherSpelled disk input).fault = outcome.fault := by
  intro outcome
  have here : outcome = arguments.run disk input := run_eq asked
  obtain ⟨passed, unsatisfied, failed, faults⟩ := arguments.run_iff disk input
  rw [here]
  refine ⟨passed, unsatisfied, failed, faults, fun report lints => ?_, fun two => ?_,
    Arguments.exists_spells asked, fun given spells => ⟨?_, ?_, ?_⟩⟩
  · obtain ⟨-, printed, none⟩ := Arguments.run_of_ok (Arguments.lintsTo_iff.1 lints)
    exact ⟨none, printed⟩
  · cases linted : (arguments.lint disk input).outcome with
    | error fault => exact (Arguments.run_of_error linted).2.1
    | ok report =>
      rw [(Arguments.run_of_ok linted).1] at two
      split at two <;> cases two
  · exact (Arguments.read_eq_lint_iff spells).1 asked
  · intro other otherSpelled otherSpells rearranges
    have collects := (Arguments.read_eq_lint_iff spells).1 asked
    exact run_eq ((Arguments.read_eq_lint_iff otherSpells).2 (collects.of_rearranges rearranges))
  · intro other otherSpelled otherArguments otherSpells otherAsked same
    have collects := (Arguments.read_eq_lint_iff spells).1 asked
    have otherCollects := (Arguments.read_eq_lint_iff otherSpells).1 otherAsked
    rw [run_eq otherAsked]
    refine Arguments.run_congr (congrArg LintRun.outcome (Arguments.lint_eq_of_valuesAt ?_))
    intro setting ne
    rw [otherCollects.values, collects.values, same setting ne]

/-- Overrides with two texts that write no template. -/
def overridesText : String := "\x7b\"txt\":[\"x\"],\"a\":[\"#LINT.?\",\"y\"]\x7d"

/-- A tree whose only file holds these overrides. -/
def faultyTree : FileTree where
  files := [(["o.json"], Text.encode overridesText.toList)]
  directories := []
  current := []

/-- Of many faults the first one counts, here that of the extension which comes first by name. The
same options in other words and in another order, with another format, fail in the same way. -/
theorem run_reports_faultyTree :
    let arguments : Arguments :=
      { included := ["["], overrides := some "o.json", fallback := some "z", diff := some "none",
        format := some .json, verbose := true }
    let spelled := ["--include", "[", "--ext-map=o.json", "-vf", "json", "--diff", "none",
      "--default-template", "z"]
    let other := ["--default-template=z", "-f=text", "--include=[", "--ext-map", "o.json",
      "--diff=none", "--"]
    Arguments.read spelled = some (.lint arguments) ∧
      (run spelled faultyTree.disk []).code = 2 ∧
      (run spelled faultyTree.disk []).fault = some (.noPlaceholder "y") ∧
      (run other faultyTree.disk []).code = 2 ∧
      (run other faultyTree.disk []).fault = some (.noPlaceholder "y") := by
  intro arguments spelled other
  have asked : Arguments.read spelled = some (.lint arguments) := by decide +kernel
  have otherAsked : Arguments.read other =
      some (.lint { arguments with format := some .text, verbose := false }) := by decide +kernel
  have spells : Spells [.setting .included "[", .setting .overrides "o.json", .verbose,
      .setting .format "json", .setting .diff "none", .setting .fallback "z"] spelled := by
    have parts : spelled = ["--" ++ "include", "[", "--" ++ "ext-map" ++ "=" ++ "o.json",
        "-" ++ String.ofList ['v', 'f'], "json", "--" ++ "diff", "none",
        "--" ++ "default-template", "z"] := by
      decide +kernel
    rw [parts]
    exact .apart (.long rfl) rfl <| .whole (.longValue rfl _) <|
      .apart (.letters (by decide) (.verbose rfl (.pending rfl))) rfl <| .apart (.long rfl) rfl <|
        .apart (.long rfl) rfl .nothing
  have otherSpells : Spells [.setting .fallback "z", .setting .format "text",
      .setting .included "[", .setting .overrides "o.json", .setting .diff "none"] other := by
    have parts : other = ["--" ++ "default-template" ++ "=" ++ "z",
        "-" ++ String.ofList ['f', '=', 't', 'e', 'x', 't'], "--" ++ "include" ++ "=" ++ "[",
        "--" ++ "ext-map", "o.json", "--" ++ "diff" ++ "=" ++ "none", "--"] := by
      decide +kernel
    rw [parts]
    exact .whole (.longValue rfl _) <| .whole (.letters (by decide) (.equals rfl _)) <|
      .whole (.longValue rfl _) <| .apart (.long rfl) rfl <| .whole (.longValue rfl _) .dashes
  obtain ⟨-, -, failed, faults, -, -, -, same⟩ := run_reports faultyTree.disk [] asked
  let overrides : Overrides := .ofList [("a", ["#LINT.?", "y"]), ("txt", ["x"])]
  have text : faultyTree.disk.readText "o.json" = .ok overridesText :=
    Outcome.eq_ok_of_toOption (by decide +kernel)
  have parsed : Overrides.read overridesText = .ok overrides :=
    Outcome.eq_ok_of_toOption (by decide +kernel)
  have fails : arguments.Fails faultyTree.disk [] .registerOverrides (.noPlaceholder "y") :=
    ⟨overrides, "y", ⟨overridesText, text, parsed⟩, by decide +kernel, rfl⟩
  have isFirst : (run spelled faultyTree.disk []).fault = some (.noPlaceholder "y") := by
    refine (faults _).2 (.inr ⟨?_, .inr ⟨?_, .inl fails⟩⟩)
    · rintro fault ⟨path, ⟨⟩, unreadable⟩
      cases text.symm.trans unreadable
    · rintro fault ⟨path, text', flaw, ⟨⟩, text'', malformed, -⟩
      cases text.symm.trans text''
      cases parsed.symm.trans malformed
  have code := failed.2 ⟨_, _, fails⟩
  obtain ⟨otherCode, otherFault⟩ := (same _ spells).2.2 _ _ _ otherSpells otherAsked (by
    intro setting ne
    cases setting <;> first | rfl | exact absurd rfl ne)
  exact ⟨asked, code, isFirst, otherCode.trans code, otherFault.trans isFirst⟩

end CommandLine

end CoChange
