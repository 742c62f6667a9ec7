import CoChange.Proofs.Verdict.Satisfaction

/-!
# What a verdict lists

A verdict goes through the rules of a map in order and keeps the present ones with a target whose
key no present rule has (`map_rule_unsatisfied`). An entry gives the indices of exactly these
targets, in ascending order, and they lead back to the keys one by one
(`UnsatisfiedRule.Describes`).
-/

namespace CoChange

namespace Verdict

/-- A present rule has the key, or lies in the file that the key names. -/
def IsMet (rules : List Rule) (key : String) : Prop :=
  ∃ other ∈ rules, other.present = true ∧
    (key = Path.normalize other.file ∨ key = other.key)

instance (rules : List Rule) (key : String) : Decidable (IsMet rules key) := by
  unfold IsMet; infer_instance

theorem mem_presentKeys_iff_isMet {rules : List Rule} {key : String} :
    key ∈ presentKeys rules ↔ IsMet rules key := by
  simp only [mem_presentKeys, IsMet, Rule.mem_answersTo]

end Verdict

open Verdict

/-- What an entry of a verdict on some rules says. -/
structure UnsatisfiedRule.Describes (rules : List Rule) (entry : UnsatisfiedRule) : Prop where
  present : entry.rule.present = true
  targets_ne_nil : entry.rule.targets ≠ []
  missing_ne_nil : entry.missing ≠ []
  ascending : entry.missing.Pairwise (· < ·)
  within : ∀ index ∈ entry.missing, index < entry.rule.targets.length
  mem_missing_iff : ∀ index key, entry.rule.targetKeys[index]? = some key →
    (index ∈ entry.missing ↔ ¬ IsMet rules key)
  length_missingKeys : entry.missingKeys.length = entry.missing.length
  missingKeys_eq : entry.missingKeys.map some = entry.missing.map (entry.rule.targetKeys[·]?)

/-! ## Missing targets -/

namespace Rule

variable {rule : Rule} {rules : List Rule}

theorem getElem?_targetKeys (rule : Rule) (index : Nat) :
    rule.targetKeys[index]? = rule.targets[index]?.map (·.key rule.file) :=
  List.getElem?_map

theorem lt_length_of_mem_missing {keys : List String} {index : Nat}
    (h : index ∈ rule.missing keys) : index < rule.targets.length := by
  obtain ⟨target, found, -⟩ := mem_missing.1 h
  exact (List.getElem?_eq_some_iff.1 found).1

theorem mem_missing_presentKeys {index : Nat} {key : String}
    (found : rule.targetKeys[index]? = some key) :
    index ∈ rule.missing (presentKeys rules) ↔ ¬ IsMet rules key := by
  rw [getElem?_targetKeys] at found
  obtain ⟨target, listed, rfl⟩ := Option.map_eq_some_iff.1 found
  rw [mem_missing, ← mem_presentKeys_iff_isMet]
  constructor
  · rintro ⟨other, same, absent⟩
    rwa [Option.some.inj (listed.symm.trans same)]
  · intro absent
    exact ⟨target, listed, absent⟩

theorem missing_presentKeys_ne_nil_iff :
    rule.missing (presentKeys rules) ≠ [] ↔ ∃ key ∈ rule.targetKeys, ¬ IsMet rules key := by
  constructor
  · intro unmet
    obtain ⟨index, mem⟩ := List.exists_mem_of_ne_nil _ unmet
    obtain ⟨target, listed, -⟩ := mem_missing.1 mem
    have found : rule.targetKeys[index]? = some (target.key rule.file) := by
      rw [getElem?_targetKeys, listed]
      rfl
    exact ⟨_, List.mem_of_getElem? found, (mem_missing_presentKeys found).1 mem⟩
  · rintro ⟨key, mem, unmet⟩
    obtain ⟨index, found⟩ := List.mem_iff_getElem?.1 mem
    exact List.ne_nil_of_mem ((mem_missing_presentKeys found).2 unmet)

end Rule

/-- Indices within the bounds lead back to keys, and none is dropped. -/
theorem UnsatisfiedRule.map_some_missingKeys {entry : UnsatisfiedRule}
    (within : ∀ index ∈ entry.missing, index < entry.rule.targets.length) :
    entry.missingKeys.map some = entry.missing.map (entry.rule.targetKeys[·]?) := by
  unfold missingKeys
  rw [List.map_filterMap_some_eq_filter_map_isSome]
  simp only [← Rule.getElem?_targetKeys]
  refine List.filter_eq_self.2 fun found mem => ?_
  obtain ⟨index, listed, rfl⟩ := List.mem_map.1 mem
  rw [Rule.getElem?_targetKeys, Option.isSome_map, isSome_getElem?]
  exact within index listed

/-! ## Entries -/

namespace Verdict

variable {map : RuleMap}

theorem map_rule_unsatisfied (map : RuleMap) :
    (ofMap map).unsatisfied.map (·.rule) =
      map.values.flatten.filter fun rule =>
        rule.present = true ∧ ∃ key ∈ rule.targetKeys, ¬ IsMet map.values.flatten key := by
  rw [unsatisfied_eq, List.map_map]
  show List.map id _ = _
  rw [List.map_id]
  refine List.filter_congr fun rule _ => decide_eq_decide.2 ?_
  rw [Rule.missing_presentKeys_ne_nil_iff]

theorem describes_of_mem {entry : UnsatisfiedRule} (mem : entry ∈ (ofMap map).unsatisfied) :
    entry.Describes map.values.flatten := by
  obtain ⟨rule, -, present, rfl, unmet⟩ := mem_unsatisfied.1 mem
  have within : ∀ index ∈ rule.missing (presentKeys map.values.flatten),
      index < rule.targets.length := fun _ => Rule.lt_length_of_mem_missing
  have keys := @UnsatisfiedRule.map_some_missingKeys ⟨rule, _⟩ within
  refine ⟨present, ?_, unmet, rule.missing_ascending _, within, ?_, ?_, keys⟩
  · obtain ⟨index, missing⟩ := List.exists_mem_of_ne_nil _ unmet
    exact List.ne_nil_of_length_pos (Nat.zero_lt_of_lt (within index missing))
  · exact fun _ _ => Rule.mem_missing_presentKeys
  · have lengths := congrArg List.length keys
    rwa [List.length_map, List.length_map] at lengths

/-- **Listing.** The rules that a verdict lists are rules of the map, as they are and in its order:
the present ones with a target that is not met. Each entry describes its rule, and all targets of a
present rule that is not listed are met. -/
theorem lists_unmet_targets (map : RuleMap) :
    let rules := map.values.flatten
    let entries := (ofMap map).unsatisfied
    (entries.map (·.rule)).Sublist rules ∧
      entries.map (·.rule) = rules.filter (fun rule =>
        rule.present = true ∧ ∃ key ∈ rule.targetKeys, ¬ IsMet rules key) ∧
      (∀ entry ∈ entries, entry.Describes rules) ∧
      ∀ rule ∈ rules, rule.present = true → rule ∉ entries.map (·.rule) →
        ∀ key ∈ rule.targetKeys, IsMet rules key := by
  intro rules entries
  have listed := map_rule_unsatisfied map
  refine ⟨?_, listed, fun entry => describes_of_mem, ?_⟩
  · show (entries.map (·.rule)).Sublist rules
    rw [listed]
    exact List.filter_sublist
  · intro rule mem present absent key inRule
    by_contra unmet
    apply absent
    rw [listed]
    exact List.mem_filter.2 ⟨mem, decide_eq_true ⟨present, key, inRule, unmet⟩⟩

/-- The rule lies in the file that its second target names. The other two are missing. -/
example :
    let targets := [⟨none, some "x"⟩, ⟨some "./a", none⟩, ⟨some "b", some "y"⟩]
    let map : RuleMap := .ofList [("b", []), ("a", [⟨"a", ⟨1, 2⟩, targets, none, true⟩])]
    (ofMap map).unsatisfied.map (fun entry => (entry.missing, entry.missingKeys)) =
      [([0, 2], ["a:x", "b:y"])] := by
  decide +kernel

end Verdict

end CoChange
