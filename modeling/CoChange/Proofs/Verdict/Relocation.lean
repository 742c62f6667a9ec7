import CoChange.Proofs.Exploration.Closure
import CoChange.Proofs.Source.Relocation
import CoChange.Proofs.Verdict.Satisfaction

/-!
# Trees below another directory

The changed files and everything that they lead to may stand in another directory. When all paths
stay inside the directory where they start, and targets name files relative to their own, the same
targets lead from the moved files to the moved ones (`Target.fileKey_under`). So the files that can
be reached are the moved ones (`reachable_under_iff`) and a closure is moved as a whole
(`IsClosure.under`). Keys are moved as well (`Target.key_under`), and as moving paths keeps them
apart, the same indices are missing (`Rule.missing_under`) and the same rules are unsatisfied
(`unsatisfied_under`).
-/

namespace CoChange

open CoChange.Path (IsInner)

/-- Changes with their files moved below a directory. -/
def Changes.under (directory : String) (changes : Changes) : Changes :=
  Catalog.under directory id changes

/-- A map with its files and the rules in them moved below a directory. -/
def RuleMap.under (directory : String) (map : RuleMap) : RuleMap :=
  Catalog.under directory (List.map (Rule.under directory)) map

/-- The entry of a moved rule. -/
def UnsatisfiedRule.under (directory : String) (entry : UnsatisfiedRule) : UnsatisfiedRule :=
  { entry with rule := entry.rule.under directory }

/-- A target points at a file inside the directory where paths start. If it names the file, it names
it relative to its own. -/
structure Target.StaysFrom (target : Target) (origin : String) : Prop where
  inner : IsInner (target.fileKey origin)
  ne_dot : target.fileKey origin ≠ "."
  isLocal : ∀ spec, target.file = some spec → Path.isLocal spec.toList = true

/-- A rule lies in a file inside the directory where paths start, and so does what it points at. -/
structure Rule.StaysInside (rule : Rule) : Prop where
  inner : IsInner rule.file
  ne_dot : rule.file ≠ "."
  targets : ∀ target ∈ rule.targets, target.StaysFrom rule.file

theorem Changes.spansOf_under (directory : String) (changes : Changes) (file : String) :
    (changes.under directory).spansOf (Path.under directory file) = changes.spansOf file := by
  unfold spansOf Changes.under
  rw [Catalog.get?_under, Option.map_id, id_eq]

/-! ## Keys -/

section Keys

variable {directory : String} (inner : IsInner directory) (ne : directory ≠ ".")

@[simp] theorem keyOf_under (directory file : String) (id : Option String) :
    keyOf (Path.under directory file) id = Path.under directory (keyOf file id) := by
  cases id with
  | none => rfl
  | some id => simp [keyOf, Path.under, String.append_assoc]

include inner ne

theorem Path.normalize_under_of_isInner {file : String} (h : IsInner file) (neFile : file ≠ ".") :
    Path.normalize (Path.under directory file) = Path.under directory file := by
  have same := h.isNormal
  rw [Path.normalize_under inner ne (by rwa [same]) (by rwa [same]), same]

theorem Target.fileKey_under {target : Target} {origin : String} (innerOrigin : IsInner origin)
    (h : target.StaysFrom origin) :
    target.fileKey (Path.under directory origin) =
      Path.under directory (target.fileKey origin) := by
  have stays := h.inner
  have neKey := h.ne_dot
  unfold fileKey at stays neKey ⊢
  cases named : target.file with
  | none =>
    rw [named] at stays neKey
    exact Path.normalize_under inner ne stays neKey
  | some spec =>
    rw [named] at stays neKey
    exact Path.resolve_under inner ne innerOrigin.relative (h.isLocal spec named) stays neKey

theorem Target.key_under {target : Target} {origin : String} (innerOrigin : IsInner origin)
    (h : target.StaysFrom origin) :
    target.key (Path.under directory origin) = Path.under directory (target.key origin) := by
  unfold key
  rw [fileKey_under inner ne innerOrigin h, keyOf_under]

namespace Rule

theorem targetKeys_under {rule : Rule} (h : rule.StaysInside) :
    (rule.under directory).targetKeys = rule.targetKeys.map (Path.under directory) := by
  unfold targetKeys
  rw [List.map_map]
  refine List.map_congr_left fun target mem => ?_
  exact Target.key_under inner ne h.inner (h.targets target mem)

theorem answersTo_under {rule : Rule} (h : rule.StaysInside) :
    (rule.under directory).answersTo = rule.answersTo.map (Path.under directory) := by
  have file : (rule.under directory).fileKey = Path.under directory rule.fileKey := by
    show Path.normalize (Path.under directory rule.file) = _
    rw [Path.normalize_under_of_isInner inner ne h.inner h.ne_dot, fileKey, h.inner.isNormal]
  have full : (rule.under directory).key = Path.under directory rule.key := by
    unfold key
    rw [file]
    exact keyOf_under directory _ _
  have named : (rule.under directory).id = rule.id := rfl
  unfold answersTo
  rw [file, full, named]
  cases rule.id <;> rfl

theorem missing_under {rule : Rule} (h : rule.StaysInside) (keys : List String) :
    (rule.under directory).missing (keys.map (Path.under directory)) = rule.missing keys := by
  unfold missing
  rw [targetKeys_under inner ne h, List.zipIdx_map, List.filter_map, List.map_map]
  congr 1
  refine List.filter_congr fun entry _ => ?_
  have known : Path.under directory entry.1 ∈ keys.map (Path.under directory) ↔
      entry.1 ∈ keys := by
    rw [List.mem_map]
    constructor
    · rintro ⟨key, mem, eq⟩
      rwa [← Path.under_inj.1 eq]
    · exact fun mem => ⟨_, mem, rfl⟩
  exact decide_eq_decide.2 (not_congr known)

end Rule

theorem UnsatisfiedRule.missingKeys_under {entry : UnsatisfiedRule} (h : entry.rule.StaysInside) :
    (entry.under directory).missingKeys = entry.missingKeys.map (Path.under directory) := by
  unfold missingKeys
  rw [List.map_filterMap]
  refine List.filterMap_congr fun index _ => ?_
  show (entry.rule.targets[index]?).map _ = _
  rw [Option.map_map]
  refine Option.map_congr fun target found => ?_
  exact Target.key_under inner ne h.inner (h.targets target (List.mem_of_getElem? found))

namespace Verdict

theorem presentKeys_under {rules : List Rule} (h : ∀ rule ∈ rules, rule.StaysInside) :
    presentKeys (rules.map (Rule.under directory)) =
      (presentKeys rules).map (Path.under directory) := by
  unfold presentKeys
  rw [List.filter_map, List.flatMap_map, List.map_flatMap]
  refine List.flatMap_congr fun rule mem => ?_
  exact Rule.answersTo_under inner ne (h rule (List.mem_filter.1 mem).1)

/-- The verdict on a moved map lists the moved rules, in the same order. -/
theorem unsatisfied_under {map : RuleMap} (h : ∀ rule ∈ map.values.flatten, rule.StaysInside) :
    (ofMap (map.under directory)).unsatisfied =
      (ofMap map).unsatisfied.map (UnsatisfiedRule.under directory) := by
  have rules : (map.under directory).values.flatten =
      map.values.flatten.map (Rule.under directory) := by
    unfold RuleMap.under
    rw [Catalog.values_under, List.map_flatten]
  have missing : ∀ rule ∈ map.values.flatten,
      (rule.under directory).missing (presentKeys (map.under directory).values.flatten) =
        rule.missing (presentKeys map.values.flatten) := by
    intro rule mem
    rw [rules, presentKeys_under inner ne h, Rule.missing_under inner ne (h rule mem)]
  rw [unsatisfied_eq, unsatisfied_eq, rules, List.filter_map, List.map_map, List.map_map, ← rules]
  have kept : map.values.flatten.filter ((fun rule => decide (rule.present = true ∧
        rule.missing (presentKeys (map.under directory).values.flatten) ≠ [])) ∘
          Rule.under directory) =
      map.values.flatten.filter fun rule =>
        rule.present = true ∧ rule.missing (presentKeys map.values.flatten) ≠ [] := by
    refine List.filter_congr fun rule mem => decide_eq_decide.2 ?_
    rw [missing rule mem]
    exact Iff.rfl
  rw [kept]
  refine List.map_congr_left fun rule mem => ?_
  show UnsatisfiedRule.mk _ _ = UnsatisfiedRule.mk _ _
  rw [missing rule (List.mem_filter.1 mem).1]

end Verdict

end Keys

/-! ## Files that can be reached -/

namespace Exploration

variable (source : Source) (table : TemplateTable) (changes : Changes)

/-- Everything that the changed files lead to stays inside the directory where paths start, and
targets name files relative to their own. -/
structure StaysInside : Prop where
  changed : ∀ file ∈ changes.names, IsInner file
  reached : ∀ file, Reachable source table changes changes.names file → IsInner file
  isLocal : ∀ file rules, Reachable source table changes changes.names file →
    source.rulesIn table (changes.spansOf file) file = .ok rules →
      ∀ rule ∈ rules, ∀ target ∈ rule.targets, ∀ spec, target.file = some spec →
        Path.isLocal spec.toList = true

variable {source table changes} {moved : Source} {directory : String} {map : RuleMap}

theorem ne_dot_of_rulesIn {changed : List Span} {file : String} {rules : List Rule}
    (read : source.rulesIn table changed file = .ok rules) : file ≠ "." := by
  obtain ⟨_, _, _, known, -⟩ := Source.rulesIn_eq_ok_iff.1 read
  exact TemplateTable.ne_dot_of_forPath known

theorem StaysInside.of_rulesIn (stays : StaysInside source table changes)
    (closure : IsClosure source table changes changes.names map) {file : String}
    {rules : List Rule} (reached : Reachable source table changes changes.names file)
    (read : source.rulesIn table (changes.spansOf file) file = .ok rules) {rule : Rule}
    (mem : rule ∈ rules) : rule.StaysInside := by
  obtain rfl := Source.file_of_rulesIn read mem
  refine ⟨stays.reached _ reached, ne_dot_of_rulesIn read, fun target listed => ?_⟩
  have further : Reachable source table changes changes.names (target.fileKey rule.file) := by
    by_cases named : target.file.isSome
    · exact .target reached read mem listed named
    · have own : target.fileKey rule.file = Path.normalize rule.file := by
        rw [Option.not_isSome_iff_eq_none] at named
        unfold Target.fileKey
        rw [named]
      rwa [own, reached.normalize_eq]
  obtain ⟨_, readFurther⟩ := closure.readable _ further
  exact ⟨stays.reached _ further, ne_dot_of_rulesIn readFurther,
    stays.isLocal _ rules reached read rule mem target listed⟩

theorem StaysInside.of_mem (stays : StaysInside source table changes)
    (closure : IsClosure source table changes changes.names map) {rule : Rule}
    (mem : rule ∈ map.values.flatten) : rule.StaysInside := by
  obtain ⟨file, rules, found, inFile⟩ := Catalog.mem_values_flatten.1 mem
  obtain ⟨reached, read⟩ := (closure.get?_iff file rules).1 found
  exact stays.of_rulesIn closure reached read inFile

section

variable (inner : IsInner directory) (ne : directory ≠ ".")
  (texts : ∀ file, file ≠ "." →
    moved.texts.get? (Path.under directory file) = source.texts.get? file)
  (stays : StaysInside source table changes)
  (closure : IsClosure source table changes changes.names map)
include texts stays closure

theorem rulesIn_moved {file : String} (reached : Reachable source table changes changes.names file)
    {rules : List Rule} :
    moved.rulesIn table ((changes.under directory).spansOf (Path.under directory file))
        (Path.under directory file) = .ok rules ↔
      ∃ before, source.rulesIn table (changes.spansOf file) file = .ok before ∧
        before.map (Rule.under directory) = rules := by
  obtain ⟨known, read⟩ := closure.readable file reached
  have text := texts file (ne_dot_of_rulesIn read)
  rw [Changes.spansOf_under, Source.rulesIn_under (stays.reached file reached) text read, read]
  constructor
  · intro eq
    exact ⟨known, rfl, Except.ok.inj eq⟩
  · rintro ⟨before, eq, rfl⟩
    rw [Except.ok.inj eq]

include inner ne

/-- The moved files are reached, and no others. -/
theorem reachable_under_iff {name : String} :
    Reachable moved table (changes.under directory) (changes.under directory).names name ↔
      ∃ file, Reachable source table changes changes.names file ∧
        Path.under directory file = name := by
  have seeds : (changes.under directory).names = changes.names.map (Path.under directory) :=
    Catalog.names_under directory id changes
  have seedOf {file : String} (mem : file ∈ changes.names) :
      Reachable source table changes changes.names file ∧
        Path.normalize (Path.under directory file) = Path.under directory file := by
    have own := stays.changed file mem
    have reached : Reachable source table changes changes.names file :=
      own.isNormal ▸ Reachable.seed mem
    obtain ⟨_, read⟩ := closure.readable file reached
    exact ⟨reached, Path.normalize_under_of_isInner inner ne own (ne_dot_of_rulesIn read)⟩
  constructor
  · intro h
    induction h with
    | seed mem =>
      rw [seeds] at mem
      obtain ⟨file, listed, rfl⟩ := List.mem_map.1 mem
      obtain ⟨reached, same⟩ := seedOf listed
      exact ⟨file, reached, same.symm⟩
    | target _ read mem listed named ih =>
      -- The rules that lead on are moved ones, as they were read from a moved file.
      obtain ⟨file, reached, rfl⟩ := ih
      obtain ⟨before, readBefore, rfl⟩ := (rulesIn_moved texts stays closure reached).1 read
      obtain ⟨rule, inFile, rfl⟩ := List.mem_map.1 mem
      have inside := stays.of_rulesIn closure reached readBefore inFile
      have same := Source.file_of_rulesIn readBefore inFile
      refine ⟨_, .target reached readBefore inFile listed named, ?_⟩
      rw [Target.fileKey_under inner ne (same ▸ inside.inner) (same ▸ inside.targets _ listed)]
  · rintro ⟨file, h, rfl⟩
    induction h with
    | @seed file mem =>
      rw [(stays.changed file mem).isNormal, ← (seedOf mem).2]
      refine .seed ?_
      rw [seeds]
      exact List.mem_map_of_mem mem
    | @target file rules rule target reached read mem listed named ih =>
      have inside := stays.of_rulesIn closure reached read mem
      have same := Source.file_of_rulesIn read mem
      rw [← Target.fileKey_under inner ne (same ▸ inside.inner) (same ▸ inside.targets _ listed)]
      exact .target ih ((rulesIn_moved texts stays closure reached).2 ⟨rules, read, rfl⟩)
        (List.mem_map_of_mem mem) listed named

theorem IsClosure.under :
    IsClosure moved table (changes.under directory) (changes.under directory).names
      (map.under directory) := by
  refine ⟨fun name reached => ?_, fun name rules => ?_⟩
  · obtain ⟨file, before, rfl⟩ := (reachable_under_iff inner ne texts stays closure).1 reached
    obtain ⟨rules, read⟩ := closure.readable file before
    exact ⟨_, (rulesIn_moved texts stays closure before).2 ⟨rules, read, rfl⟩⟩
  · rw [reachable_under_iff inner ne texts stays closure]
    constructor
    · intro found
      have listed : name ∈ (map.under directory).names := Catalog.mem_names_iff.2 ⟨rules, found⟩
      unfold RuleMap.under at listed found
      rw [Catalog.names_under] at listed
      obtain ⟨file, mem, rfl⟩ := List.mem_map.1 listed
      rw [Catalog.get?_under, Option.map_eq_some_iff] at found
      obtain ⟨before, kept, eq⟩ := found
      obtain ⟨reached, read⟩ := (closure.get?_iff file before).1 kept
      exact ⟨⟨file, reached, rfl⟩,
        (rulesIn_moved texts stays closure reached).2 ⟨before, read, eq⟩⟩
    · rintro ⟨⟨file, reached, rfl⟩, read⟩
      obtain ⟨before, kept, rfl⟩ := (rulesIn_moved texts stays closure reached).1 read
      unfold RuleMap.under
      rw [Catalog.get?_under, (closure.get?_iff file before).2 ⟨reached, kept⟩, Option.map_some]

end

end Exploration

/-! ## Verdicts -/

namespace Verdict

/-- **Relocation.** Where the changed files and everything that they lead to stays inside the
directory where paths start, and targets name files relative to their own, the whole tree may be
moved below another directory. Exploring the moved changes in the moved files succeeds with the
moved map, in which rules differ in their files only. The verdict lists the moved rules in the same
order with the same indices, and the keys that it misses are the moved ones. -/
theorem relocate {directory : String} {texts : List (String × String)} {table : TemplateTable}
    {changes : Changes} {map : RuleMap} (inner : IsInner directory) (ne : directory ≠ ".")
    (stored : ∀ entry ∈ texts, IsInner (Path.normalize entry.1))
    (stays : Exploration.StaysInside (.ofTexts texts) table changes)
    (explored :
      (Exploration.explore (.ofTexts texts) table changes changes.names).outcome = .ok map) :
    (Exploration.explore
        (.ofTexts (texts.map fun entry => (Path.under directory entry.1, entry.2))) table
        (changes.under directory) (changes.under directory).names).outcome =
      .ok (map.under directory) ∧
    (ofMap (map.under directory)).unsatisfied =
      (ofMap map).unsatisfied.map (UnsatisfiedRule.under directory) ∧
    ∀ entry ∈ (ofMap map).unsatisfied,
      (entry.under directory).missingKeys = entry.missingKeys.map (Path.under directory) := by
  have closure := Exploration.explore_eq_ok_iff.1 explored
  have inside (rule : Rule) (mem : rule ∈ map.values.flatten) : rule.StaysInside :=
    stays.of_mem closure mem
  refine ⟨Exploration.explore_eq_ok_iff.2 ?_, unsatisfied_under inner ne inside, ?_⟩
  · exact closure.under inner ne (fun _ => Source.get?_texts_under inner ne stored) stays
  · intro entry listed
    obtain ⟨rule, mem, -, rfl, -⟩ := mem_unsatisfied.1 listed
    exact UnsatisfiedRule.missingKeys_under inner ne (inside rule mem)

/-- A file at the top and two files below it. One of these points upwards, at a file that did not
change. -/
def nestedTexts : List (String × String) :=
  [("main.py", "#LINT.IF ./a/b.py:z\nx\n#LINT.END\n"),
    ("a/b.py", "#LINT.IF ../c.py :z\ny\n#LINT.END z\n"), ("c.py", "#LINT.IF\n#LINT.END\n")]

/-- The rules of these files when the first two have changed. -/
def nestedMap : RuleMap :=
  .ofList [("main.py", [⟨"main.py", ⟨1, 3⟩, [⟨some "./a/b.py", some "z"⟩], none, true⟩]),
    ("a/b.py", [⟨"a/b.py", ⟨1, 3⟩, [⟨some "../c.py", none⟩, ⟨none, some "z"⟩], some "z", true⟩]),
    ("c.py", [⟨"c.py", ⟨1, 2⟩, [], none, false⟩])]

/-- Moved below two more directories, the files have the same target missing. -/
theorem relocate_nestedTexts :
    let changes : Changes := .ofHunks [⟨"main.py", ⟨2, 2⟩⟩, ⟨"a/b.py", ⟨2, 2⟩⟩]
    let moved := changes.under "lib/d"
    IsInner "lib/d" ∧ "lib/d" ≠ "." ∧ (∀ entry ∈ nestedTexts, IsInner (Path.normalize entry.1)) ∧
      Exploration.StaysInside (.ofTexts nestedTexts) .builtIn changes ∧
      (Exploration.explore (.ofTexts nestedTexts) .builtIn changes changes.names).outcome =
        .ok nestedMap ∧
      (Exploration.explore
          (.ofTexts (nestedTexts.map fun entry => (Path.under "lib/d" entry.1, entry.2))) .builtIn
          moved moved.names).outcome = .ok (nestedMap.under "lib/d") ∧
      (ofMap (nestedMap.under "lib/d")).unsatisfied.map (fun entry =>
          (entry.rule.file, entry.missing, entry.missingKeys)) =
        [("lib/d/a/b.py", [0], ["lib/d/c.py"])] := by
  intro changes moved
  have inner : IsInner "lib/d" := by decide +kernel
  have ne : "lib/d" ≠ "." := by decide
  have stored : ∀ entry ∈ nestedTexts, IsInner (Path.normalize entry.1) := by decide +kernel
  have explored : (Exploration.explore (.ofTexts nestedTexts) .builtIn changes
      changes.names).outcome = .ok nestedMap := Outcome.eq_ok_of_toOption (by decide +kernel)
  have closure := Exploration.explore_eq_ok_iff.1 explored
  have stays : Exploration.StaysInside (.ofTexts nestedTexts) .builtIn changes := by
    refine ⟨by decide +kernel, fun file reached => ?_, fun file rules reached read => ?_⟩
    · have files : ∀ file ∈ nestedMap.names, IsInner file := by decide +kernel
      exact files file (closure.mem_names_iff.2 reached)
    · have specs : ∀ entry ∈ nestedMap.entries, ∀ rule ∈ entry.2, ∀ target ∈ rule.targets,
          ∀ spec ∈ target.file, Path.isLocal spec.toList = true := by decide +kernel
      exact specs _ (Catalog.mem_entries_iff.2 ((closure.get?_iff file rules).2 ⟨reached, read⟩))
  obtain ⟨run, lists, -⟩ := relocate inner ne stored stays explored
  refine ⟨inner, ne, stored, stays, explored, run, ?_⟩
  rw [lists]
  decide +kernel

end Verdict

end CoChange
