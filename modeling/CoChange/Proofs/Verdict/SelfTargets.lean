import CoChange.Proofs.Verdict.Listing

/-!
# Targets that a rule meets itself

A present rule may name its own key or its own file as a target. Such targets are found on the way
through a map, each at its place (`mem_sitesOf`, `sitesOf_ordered`), and each makes one warning
(`warnings_eq`). The warning and the verdict look at the keys separately, and they agree: the rule
answers to its own key and to its file, so the target is met whatever else is in the map
(`TargetSite.IsSelfTarget.isMet`).
-/

namespace CoChange

/-- A target of a rule, with the place of the rule among the rules of a map and the index of the
target in the rule. -/
structure TargetSite where
  rule : Rule
  place : Nat
  target : Target
  index : Nat
deriving DecidableEq, Repr

namespace TargetSite

/-- One site comes before another: by the rules first, within a rule by the targets. -/
def Before (a b : TargetSite) : Prop := a.place < b.place ∨ a.place = b.place ∧ a.index < b.index

/-- At the site a present rule names itself: its own key, or its file without an identifier. -/
structure IsSelfTarget (rules : List Rule) (site : TargetSite) : Prop where
  inRules : rules[site.place]? = some site.rule
  inTargets : site.rule.targets[site.index]? = some site.target
  present : site.rule.present = true
  itself : site.target.key site.rule.file = site.rule.key ∨
    site.target.id = none ∧ site.target.key site.rule.file = Path.normalize site.rule.file

/-- The warning for a site. -/
def warning (site : TargetSite) : Event :=
  .selfTarget site.rule.file site.rule.span (site.target.key site.rule.file)

theorem IsSelfTarget.isMet {rules : List Rule} {site : TargetSite} (h : site.IsSelfTarget rules) :
    Verdict.IsMet rules (site.target.key site.rule.file) := by
  refine ⟨site.rule, List.mem_of_getElem? h.inRules, h.present, ?_⟩
  rcases h.itself with own | ⟨-, file⟩
  · exact .inr own
  · exact .inl file

end TargetSite

namespace Verdict

/-- Whether a rule is present and meets one of its targets itself. -/
def warnsOf (rule : Rule) (target : Target) : Bool := rule.present && rule.isSelfTarget target

/-- The sites where present rules meet their targets themselves. -/
def sitesOf (rules : List Rule) : List TargetSite :=
  rules.zipIdx.flatMap fun (rule, place) =>
    (rule.targets.zipIdx.filter fun (target, _) => warnsOf rule target).map fun (target, index) =>
      ⟨rule, place, target, index⟩

/-- Whether an event warns of a target that a rule meets itself. -/
def isWarning (event : Event) : Bool :=
  event.level = .warn ∧ event.message = "rule targets itself and is always satisfied"

/-- The warnings among events. -/
def warnings (events : List Event) : List Event := events.filter isWarning

variable {rules : List Rule} {map : RuleMap}

theorem warnsOf_iff {rule : Rule} {target : Target} :
    warnsOf rule target = true ↔ rule.present = true ∧
      (target.key rule.file = rule.key ∨
        target.id = none ∧ target.key rule.file = Path.normalize rule.file) := by
  simp [warnsOf, Rule.isSelfTarget, Rule.fileKey]

theorem mem_sitesOf {site : TargetSite} : site ∈ sitesOf rules ↔ site.IsSelfTarget rules := by
  obtain ⟨rule, place, target, index⟩ := site
  simp only [sitesOf, List.mem_flatMap, List.mem_map, List.mem_filter, Prod.exists,
    List.mem_zipIdx_iff_getElem?, warnsOf_iff, TargetSite.mk.injEq]
  constructor
  · rintro ⟨_, _, inRules, _, _, ⟨inTargets, present, itself⟩, rfl, rfl, rfl, rfl⟩
    exact ⟨inRules, inTargets, present, itself⟩
  · rintro ⟨inRules, inTargets, present, itself⟩
    exact ⟨_, _, inRules, _, _, ⟨inTargets, present, itself⟩, rfl, rfl, rfl, rfl⟩

theorem pairwise_lt_zipIdx {α : Type} (items : List α) :
    items.zipIdx.Pairwise fun a b => a.2 < b.2 := by
  apply List.pairwise_map.1
  rw [List.zipIdx_map_snd]
  exact List.pairwise_lt_range'

theorem sitesOf_ordered (rules : List Rule) : (sitesOf rules).Pairwise TargetSite.Before := by
  refine List.pairwise_flatMap.2 ⟨fun (rule, place) _ => ?_, ?_⟩
  · refine List.pairwise_map.2 (((pairwise_lt_zipIdx _).filter _).imp fun less => ?_)
    exact .inr ⟨rfl, less⟩
  · refine (pairwise_lt_zipIdx rules).imp fun {a b} less x hx y hy => ?_
    obtain ⟨-, -, rfl⟩ := List.mem_map.1 hx
    obtain ⟨-, -, rfl⟩ := List.mem_map.1 hy
    exact .inl less

/-- The places aside, the sites of a rule are its targets that it meets itself. -/
theorem map_warning_sites (rule : Rule) (place : Nat) :
    ((rule.targets.zipIdx.filter fun (target, _) => warnsOf rule target).map
      fun (target, index) => (⟨rule, place, target, index⟩ : TargetSite).warning) =
      if rule.present = true then rule.selfTargetEvents else [] := by
  by_cases present : rule.present = true
  · have same : rule.isSelfTarget = warnsOf rule := by
      funext target
      rw [warnsOf, present, Bool.true_and]
    have aimed : rule.targets.filter rule.isSelfTarget =
        (rule.targets.zipIdx.filter fun (target, _) => warnsOf rule target).map Prod.fst := by
      calc rule.targets.filter rule.isSelfTarget
        _ = (rule.targets.zipIdx.map Prod.fst).filter (warnsOf rule) := by
          rw [List.zipIdx_map_fst, same]
        _ = _ := List.filter_map
    rw [if_pos present, Rule.selfTargetEvents, aimed, List.map_map]
    rfl
  · have none : ∀ aimed ∈ rule.targets.zipIdx, ¬ warnsOf rule aimed.1 = true := by
      intro aimed _ warns
      exact present (warnsOf_iff.1 warns).1
    rw [if_neg present, List.filter_eq_nil_iff.2 none, List.map_nil]

theorem flatMap_selfTargetEvents (rules : List Rule) :
    (rules.filter (·.present)).flatMap (·.selfTargetEvents) =
      (sitesOf rules).map TargetSite.warning := by
  have kept : (rules.filter (·.present)).flatMap (·.selfTargetEvents) =
      rules.flatMap fun rule => if rule.present = true then rule.selfTargetEvents else [] := by
    induction rules with
    | nil => rfl
    | cons rule rest ih =>
      by_cases present : rule.present = true
      · rw [List.filter_cons_of_pos present, List.flatMap_cons, ih, List.flatMap_cons,
          if_pos present]
      · rw [List.filter_cons_of_neg present, ih, List.flatMap_cons, if_neg present,
          List.nil_append]
  calc (rules.filter (·.present)).flatMap (·.selfTargetEvents)
    _ = (rules.zipIdx.map Prod.fst).flatMap fun rule =>
          if rule.present = true then rule.selfTargetEvents else [] := by
      rw [kept, List.zipIdx_map_fst]
    _ = rules.zipIdx.flatMap fun (rule, _) =>
          if rule.present = true then rule.selfTargetEvents else [] := List.flatMap_map ..
    _ = (sitesOf rules).map TargetSite.warning := by
      rw [sitesOf, List.map_flatMap]
      refine List.flatMap_congr fun (rule, place) _ => ?_
      rw [List.map_map]
      exact (map_warning_sites rule place).symm

theorem warnings_eq (map : RuleMap) :
    warnings (ofMap map).events = (sitesOf map.values.flatten).map TargetSite.warning := by
  have events : (ofMap map).events =
      (map.values.flatten.filter (·.present)).flatMap (·.selfTargetEvents) ++
        [.checkedRules (ofMap map).unsatisfied.length] := rfl
  have all : ∀ event ∈ (sitesOf map.values.flatten).map TargetSite.warning,
      isWarning event = true := by
    intro event mem
    obtain ⟨site, -, rfl⟩ := List.mem_map.1 mem
    exact decide_eq_true ⟨rfl, rfl⟩
  -- The count of unsatisfied rules is the only other event.
  have last (count : Nat) : ¬ isWarning (.checkedRules count) = true := by
    intro warns
    exact nomatch (of_decide_eq_true warns).1
  rw [warnings, events, flatMap_selfTargetEvents, List.filter_append, List.filter_eq_self.2 all,
    List.filter_cons_of_neg (last _), List.filter_nil, List.append_nil]

/-- **Self targets.** The warnings of a verdict are those for the targets that present rules meet
themselves, one for each and in the order of the rules and their targets. No such target is
reported, whatever else is in the map. -/
theorem warnings_of_selfTargets (map : RuleMap) :
    ∃ sites : List TargetSite, sites.Pairwise TargetSite.Before ∧
      (∀ site, site ∈ sites ↔ site.IsSelfTarget map.values.flatten) ∧
      warnings (ofMap map).events = sites.map TargetSite.warning ∧
      ∀ site ∈ sites, ¬ Reports map site.rule site.index := by
  refine ⟨sitesOf map.values.flatten, sitesOf_ordered _, fun site => mem_sitesOf, warnings_eq map,
    fun site mem => ?_⟩
  have itself := mem_sitesOf.1 mem
  have listed := List.mem_of_getElem? itself.inRules
  rw [reports_iff_key listed itself.present itself.inTargets, not_not]
  exact mem_presentKeys_iff_isMet.2 itself.isMet

/-- A rule that names its own file, another file, and its own key, in other spellings. -/
example :
    let targets := [⟨some "a", none⟩, ⟨some "b", none⟩, ⟨some "./c/../a", some "x"⟩]
    let map : RuleMap := .ofList [("a", [⟨"./a", ⟨1, 2⟩, targets, some "x", true⟩])]
    warnings (ofMap map).events =
      [.selfTarget "./a" ⟨1, 2⟩ "a", .selfTarget "./a" ⟨1, 2⟩ "a:x"] := by
  decide +kernel

end Verdict

end CoChange
