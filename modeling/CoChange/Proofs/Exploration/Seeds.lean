import CoChange.Proofs.Exploration.Closure
import CoChange.Proofs.Source.Presence
import Mathlib.Logic.Relation

/-!
# Explorations from fewer seeds

A file is reached when a chain of links leads to it from a seed (`reachable_iff`). Fewer seeds lead
to fewer files, and what is read of a file does not depend on the seeds. So an exploration that
succeeds also succeeds from fewer seeds (`IsClosure.exists_part`), and then holds a part of the map,
with the same rules for each of its files (`IsClosure.get?_of_subset`). With other changes the files
reached stay what they are, and their rules differ in nothing but their presence
(`IsClosure.get?_of_changes`).
-/

namespace CoChange.Exploration

variable {source : Source} {table : TemplateTable} {changes : Changes}
  {seeds others : List String} {file : String}

/-! ## Chains of links -/

/-- A target of a rule in one file names the other. -/
def Leads (source : Source) (table : TemplateTable) (changes : Changes) (file other : String) :
    Prop :=
  ∃ rules, source.rulesIn table (changes.spansOf file) file = .ok rules ∧
    ∃ rule ∈ rules, ∃ target ∈ rule.targets, target.file.isSome ∧ target.fileKey file = other

theorem reachable_iff {file : String} :
    Reachable source table changes seeds file ↔
      ∃ name ∈ seeds,
        Relation.ReflTransGen (Leads source table changes) (Path.normalize name) file := by
  constructor
  · intro reached
    induction reached with
    | seed mem => exact ⟨_, mem, .refl⟩
    | target _ read mem listed named ih =>
      obtain ⟨name, hname, chain⟩ := ih
      exact ⟨name, hname, chain.tail ⟨_, read, _, mem, _, listed, named, rfl⟩⟩
  · rintro ⟨name, hname, chain⟩
    induction chain with
    | refl => exact .seed hname
    | tail _ link ih =>
      obtain ⟨rules, read, rule, mem, target, listed, named, rfl⟩ := link
      exact .target ih read mem listed named

/-! ## Fewer seeds -/

theorem Reachable.of_subset (fewer : ∀ name ∈ others, name ∈ seeds) {file : String}
    (h : Reachable source table changes others file) : Reachable source table changes seeds file :=
  h.of_seeds fun name mem => List.mem_map_of_mem (fewer name mem)

namespace IsClosure

variable {map part : RuleMap}

/-- What is read from fewer seeds is a part of the map. -/
theorem get?_of_subset (h : IsClosure source table changes seeds map)
    (hpart : IsClosure source table changes others part)
    (fewer : ∀ name ∈ others, name ∈ seeds) {file : String} {rules : List Rule}
    (found : part.get? file = some rules) : map.get? file = some rules := by
  obtain ⟨reached, read⟩ := (hpart.get?_iff file rules).1 found
  exact (h.get?_iff file rules).2 ⟨reached.of_subset fewer, read⟩

theorem names_of_subset (h : IsClosure source table changes seeds map)
    (hpart : IsClosure source table changes others part)
    (fewer : ∀ name ∈ others, name ∈ seeds) :
    part.names = map.names.filter (· ∈ part.names) := by
  refine Catalog.names_eq_filter fun name mem => ?_
  exact h.mem_names_iff.2 ((hpart.mem_names_iff.1 mem).of_subset fewer)

theorem exists_part (h : IsClosure source table changes seeds map)
    (fewer : ∀ name ∈ others, name ∈ seeds) :
    ∃ part, IsClosure source table changes others part := by
  rcases explore_outcome source table changes others with
    ⟨part, -, hpart⟩ | ⟨fault, file, -, reached, failed⟩
  · exact ⟨part, hpart⟩
  · obtain ⟨rules, read⟩ := h.readable file (reached.of_subset fewer)
    rw [failed] at read
    cases read

end IsClosure

/-! ## Other changes -/

/-- What changes in a file does not change where its targets lead. -/
theorem Reachable.of_changes (h : Reachable source table changes seeds file) (other : Changes) :
    Reachable source table other seeds file := by
  induction h with
  | seed mem => exact .seed mem
  | @target file rules rule target _ read mem listed named ih =>
    have found := Source.rulesIn_presentIn read (other.spansOf file)
    exact .target ih found (List.mem_map_of_mem mem) listed named

/-- With other changes and more seeds a file has the same rules, present in these changes. -/
theorem IsClosure.get?_of_changes {other : Changes} {map whole : RuleMap}
    (h : IsClosure source table changes others map) (more : IsClosure source table other seeds whole)
    (fewer : ∀ name ∈ others, name ∈ seeds) {rules : List Rule}
    (found : map.get? file = some rules) :
    whole.get? file = some (rules.map (·.presentIn (other.spansOf file))) := by
  obtain ⟨reached, read⟩ := (h.get?_iff file rules).1 found
  exact (more.get?_iff file _).2
    ⟨(reached.of_changes other).of_subset fewer, Source.rulesIn_presentIn read _⟩

end CoChange.Exploration
