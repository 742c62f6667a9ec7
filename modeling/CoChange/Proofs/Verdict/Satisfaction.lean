import CoChange.Proofs.Catalog
import CoChange.Proofs.Rule.Key
import CoChange.Verdict

/-!
# Which targets are met

A target asks for a present rule in its file, with its identifier if it gives one (`Rule.Meets`).
A verdict compares keys instead, and a key does not always tell two files apart: a present rule of
another file can answer to the key of a target, when one of the two file names continues the other
behind a colon (`Rule.PosesAs`). These are the only rules that a verdict mistakes for others
(`Rule.answers_iff`), so it decides every target rightly when no file name has a colon.
-/

namespace CoChange

namespace Rule

/-- A present rule of the file that a target points into, with the identifier that the target gives,
if it gives one. -/
def Meets (rule : Rule) (target : Target) (origin : String) : Prop :=
  rule.present = true ∧ Path.normalize rule.file = target.fileKey origin ∧
    (target.id = none ∨ rule.id = target.id)

/-- A present rule of another file that answers to the key of a target. -/
def PosesAs (rule : Rule) (target : Target) (origin : String) : Prop :=
  rule.present = true ∧ Path.normalize rule.file ≠ target.fileKey origin ∧
    (target.key origin = Path.normalize rule.file ∨ target.key origin = rule.key)

instance (rule : Rule) (target : Target) (origin : String) :
    Decidable (rule.Meets target origin) := by
  unfold Meets; infer_instance

instance (rule : Rule) (target : Target) (origin : String) :
    Decidable (rule.PosesAs target origin) := by
  unfold PosesAs; infer_instance

theorem mem_answersTo {rule : Rule} {asked : String} :
    asked ∈ rule.answersTo ↔ asked = Path.normalize rule.file ∨ asked = rule.key := by
  unfold answersTo key fileKey
  cases rule.id <;> simp [keyOf]

/-- A rule answers to the key of a target exactly when it meets it or poses as a rule that does. -/
theorem answers_iff {rule : Rule} {target : Target} {origin : String} :
    rule.present = true ∧ target.key origin ∈ rule.answersTo ↔
      rule.Meets target origin ∨ rule.PosesAs target origin := by
  unfold Meets PosesAs
  rw [mem_answersTo, ← and_or_left]
  refine and_congr_right fun _ => ?_
  -- In one file keys are equal when identifiers are; only across files can they mislead.
  by_cases same : Path.normalize rule.file = target.fileKey origin
  · have plain : target.key origin = Path.normalize rule.file ↔ target.id = none := by
      rw [same, Target.key]
      exact keyOf_inj (b := none)
    have full : target.key origin = rule.key ↔ rule.id = target.id := by
      rw [Rule.key, Rule.fileKey, same, Target.key, keyOf_inj, eq_comm]
    rw [plain, full]
    simp [same]
  · simp [same]

/-- A rule poses as another only with a colon in a file name. -/
theorem PosesAs.continues {rule : Rule} {target : Target} {origin : String}
    (h : rule.PosesAs target origin) :
    Continues (target.fileKey origin) (Path.normalize rule.file) ∨
      Continues (Path.normalize rule.file) (target.fileKey origin) := by
  obtain ⟨-, ne, plain | full⟩ := h
  · exact keyOf_eq_of_ne (b := none) (Ne.symm ne) plain
  · exact keyOf_eq_of_ne (Ne.symm ne) full

theorem mem_missing {rule : Rule} {keys : List String} {index : Nat} :
    index ∈ rule.missing keys ↔
      ∃ target, rule.targets[index]? = some target ∧ target.key rule.file ∉ keys := by
  simp only [missing, targetKeys, List.mem_map, List.mem_filter, Prod.exists,
    List.mem_zipIdx_iff_getElem?, List.getElem?_map, Option.map_eq_some_iff, decide_eq_true_eq]
  constructor
  · rintro ⟨key, i, ⟨⟨target, found, rfl⟩, absent⟩, rfl⟩
    exact ⟨target, found, absent⟩
  · rintro ⟨target, found, absent⟩
    exact ⟨_, index, ⟨⟨target, found, rfl⟩, absent⟩, rfl⟩

theorem missing_ascending (rule : Rule) (keys : List String) :
    (rule.missing keys).Pairwise (· < ·) := by
  unfold missing
  rw [List.pairwise_map]
  refine List.Pairwise.filter _ (List.pairwise_map.1 ?_)
  rw [List.zipIdx_map_snd]
  exact List.pairwise_lt_range'

end Rule

namespace Verdict

variable {map : RuleMap}

theorem mem_presentKeys {rules : List Rule} {key : String} :
    key ∈ presentKeys rules ↔ ∃ rule ∈ rules, rule.present = true ∧ key ∈ rule.answersTo := by
  simp [presentKeys, List.mem_flatMap, and_assoc]

theorem filterMap_unsatisfied? (rules : List Rule) (keys : List String) :
    rules.filterMap (·.unsatisfied? keys) =
      (rules.filter fun rule => rule.missing keys ≠ []).map fun rule =>
        ⟨rule, rule.missing keys⟩ := by
  induction rules with
  | nil => rfl
  | cons rule rest ih =>
    rw [List.filterMap_cons, ih]
    by_cases complete : rule.missing keys = []
    · have met : rule.unsatisfied? keys = none := by
        unfold Rule.unsatisfied?
        rw [complete]
      rw [met, List.filter_cons_of_neg (by simp [complete])]
    · have unmet : rule.unsatisfied? keys = some ⟨rule, rule.missing keys⟩ := by
        unfold Rule.unsatisfied?
        split
        · next none => exact absurd none complete
        · rfl
      rw [unmet, List.filter_cons_of_pos (by simp [complete])]
      rfl

theorem unsatisfied_eq (map : RuleMap) :
    (ofMap map).unsatisfied =
      (map.values.flatten.filter fun rule =>
        rule.present = true ∧ rule.missing (presentKeys map.values.flatten) ≠ []).map fun rule =>
          ⟨rule, rule.missing (presentKeys map.values.flatten)⟩ := by
  change (map.values.flatten.filter (·.present)).filterMap _ = _
  rw [filterMap_unsatisfied?, List.filter_filter]
  congr 2
  funext rule
  simp [Bool.and_comm]

theorem mem_unsatisfied {unsatisfied : UnsatisfiedRule} :
    unsatisfied ∈ (ofMap map).unsatisfied ↔
      ∃ rule ∈ map.values.flatten, rule.present = true ∧
        unsatisfied = ⟨rule, rule.missing (presentKeys map.values.flatten)⟩ ∧
          rule.missing (presentKeys map.values.flatten) ≠ [] := by
  rw [unsatisfied_eq, List.mem_map]
  constructor
  · rintro ⟨rule, mem, rfl⟩
    obtain ⟨mem, kept⟩ := List.mem_filter.1 mem
    obtain ⟨present, unmet⟩ := of_decide_eq_true kept
    exact ⟨rule, mem, present, rfl, unmet⟩
  · rintro ⟨rule, mem, present, rfl, unmet⟩
    exact ⟨rule, List.mem_filter.2 ⟨mem, decide_eq_true ⟨present, unmet⟩⟩, rfl⟩

/-- A verdict reports a target when it lists the rule with the index of the target. -/
def Reports (map : RuleMap) (rule : Rule) (index : Nat) : Prop :=
  ∃ unsatisfied ∈ (ofMap map).unsatisfied,
    unsatisfied.rule = rule ∧ index ∈ unsatisfied.missing

theorem reports_iff_key {rule : Rule} (mem : rule ∈ map.values.flatten)
    (present : rule.present = true) {index : Nat} {target : Target}
    (listed : rule.targets[index]? = some target) :
    Reports map rule index ↔ target.key rule.file ∉ presentKeys map.values.flatten := by
  constructor
  · rintro ⟨_, reported, rfl, missing⟩
    obtain ⟨rule, -, -, rfl, -⟩ := mem_unsatisfied.1 reported
    obtain ⟨other, found, absent⟩ := Rule.mem_missing.1 missing
    rwa [Option.some.inj (listed.symm.trans found)]
  · intro absent
    have missing := Rule.mem_missing.2 ⟨target, listed, absent⟩
    exact ⟨_, mem_unsatisfied.2 ⟨rule, mem, present, rfl, List.ne_nil_of_mem missing⟩, rfl, missing⟩

theorem Reports.of_fewer_keys {whole : RuleMap} {rule : Rule} {index : Nat}
    (h : Reports whole rule index) (mem : rule ∈ map.values.flatten)
    (fewer : ∀ key ∈ presentKeys map.values.flatten, key ∈ presentKeys whole.values.flatten) :
    Reports map rule index := by
  obtain ⟨_, reported, rfl, missing⟩ := h
  obtain ⟨rule, -, present, rfl, -⟩ := mem_unsatisfied.1 reported
  obtain ⟨target, listed, absent⟩ := Rule.mem_missing.1 missing
  exact (reports_iff_key mem present listed).2 fun known => absent (fewer _ known)

theorem key_mem_presentKeys {rules : List Rule} {target : Target} {origin : String} :
    target.key origin ∈ presentKeys rules ↔
      (∃ other ∈ rules, other.Meets target origin) ∨
        ∃ other ∈ rules, other.PosesAs target origin := by
  simp only [mem_presentKeys, Rule.answers_iff, and_or_left, exists_or]

theorem key_mem_presentKeys_of_colonless {rules : List Rule} {target : Target} {origin : String}
    (own : ':' ∉ (target.fileKey origin).toList)
    (others : ∀ other ∈ rules, ':' ∉ (Path.normalize other.file).toList) :
    target.key origin ∈ presentKeys rules ↔ ∃ other ∈ rules, other.Meets target origin := by
  rw [key_mem_presentKeys, or_iff_left]
  rintro ⟨other, hother, poses⟩
  rcases poses.continues with longer | longer
  · exact others other hother longer.colon
  · exact own longer.colon

instance (map : RuleMap) (rule : Rule) (index : Nat) : Decidable (Reports map rule index) := by
  unfold Reports; infer_instance

/-- **Satisfaction.** A verdict lists present rules of the map only. It reports a target of a
present rule exactly when no present rule meets the target and none poses as a rule that does, and
posing takes two file names of which one continues the other behind a colon. -/
theorem reports_iff (map : RuleMap) :
    (∀ unsatisfied ∈ (ofMap map).unsatisfied,
      unsatisfied.rule ∈ map.values.flatten ∧ unsatisfied.rule.present = true) ∧
    ∀ rule ∈ map.values.flatten, rule.present = true →
      ∀ index target, rule.targets[index]? = some target →
        (Reports map rule index ↔
          (¬ ∃ other ∈ map.values.flatten, other.Meets target rule.file) ∧
            ¬ ∃ other ∈ map.values.flatten, other.PosesAs target rule.file) ∧
        ∀ other : Rule, other.PosesAs target rule.file →
          Continues (target.fileKey rule.file) (Path.normalize other.file) ∨
            Continues (Path.normalize other.file) (target.fileKey rule.file) := by
  refine ⟨fun unsatisfied reported => ?_, fun rule mem present index target listed => ⟨?_, ?_⟩⟩
  · obtain ⟨rule, mem, present, rfl, -⟩ := mem_unsatisfied.1 reported
    exact ⟨mem, present⟩
  · rw [reports_iff_key mem present listed, key_mem_presentKeys, not_or]
  · exact fun other poses => poses.continues

/-- A rule with a target in `d.py`, while a rule of the file `d.py:b.py` is present. -/
def posingMap : RuleMap :=
  .ofList [("d.py", []), ("d.py:b.py", [⟨"d.py:b.py", ⟨1, 2⟩, [], none, true⟩]),
    ("main.py", [⟨"main.py", ⟨1, 3⟩, [⟨some "d.py", some "b.py"⟩], none, true⟩])]

/-- No rule meets the target, yet it is not reported. -/
theorem not_reported_of_posing :
    let rule : Rule := ⟨"main.py", ⟨1, 3⟩, [⟨some "d.py", some "b.py"⟩], none, true⟩
    rule ∈ posingMap.values.flatten ∧
      (¬ ∃ other ∈ posingMap.values.flatten,
        other.Meets ⟨some "d.py", some "b.py"⟩ rule.file) ∧
      ¬ Reports posingMap rule 0 := by
  decide

end Verdict

end CoChange
