import CoChange.Proofs.Rule.Argument
import CoChange.Proofs.Rule.Pairs

/-!
# Rules written back as directives

A rule is written as the IF with its targets and the END with its identifier (`Rule.ends`). Nothing
is lost in between: directives make rules exactly when they are what these rules are written as
(`ofDirectives_eq_ok_iff_ends`), and a row of pairs behind another one is read on its own
(`ofDirectives_append`). So directives are accepted exactly when they are a row of pairs
(`ofDirectives_transcribes`).
-/

namespace CoChange

/-- The directives of pairs, one pair behind the other. -/
def Directive.inRow (pairs : List (Directive × Directive)) : List Directive :=
  pairs.flatMap fun pair => [pair.1, pair.2]

/-- An IF and an END with arguments as they have to be. -/
structure Directive.IsPair (pair : Directive × Directive) : Prop where
  opens : pair.1.keyword = .ifWord
  named : ∀ argument ∈ pair.1.arguments, Target.IsArgument argument.toList
  closes : pair.2.keyword = .endWord
  short : pair.2.arguments.length ≤ 1

theorem Directive.length_inRow (pairs : List (Directive × Directive)) :
    (inRow pairs).length = 2 * pairs.length := by
  induction pairs with
  | nil => rfl
  | cons pair rest ih =>
    have step : (inRow (pair :: rest)).length = (inRow rest).length + 2 := rfl
    rw [step, ih, List.length_cons]
    omega

namespace Rule

/-- The IF and the END that a rule is written as. -/
def ends (rule : Rule) : Directive × Directive :=
  (⟨.ifWord, rule.targets.map (·.written), rule.span.first⟩,
    ⟨.endWord, rule.id.toList, rule.span.last⟩)

/-- The rule in a file with the given changed spans. -/
def placed (rule : Rule) (file : String) (changed : List Span) : Rule :=
  { rule with file, present := changed.any (·.meets rule.span) }

variable {file : String} {changed : List Span} {a b directives : List Directive}
  {rules : List Rule}

/-! ## One pair for each rule -/

/-- Rules are read from the pairs that they are written as. -/
theorem pairs_ends (named : ∀ rule ∈ rules, ∀ target ∈ rule.targets, target.IsNamed) :
    Pairs file changed (Directive.inRow (rules.map ends)) (rules.map (·.placed file changed)) := by
  induction rules with
  | nil => exact .nil
  | cons rule rest ih =>
    rw [List.forall_mem_cons] at named
    exact .pair (readTargets_eq_ok_iff.2 ⟨named.1, rfl⟩) (readId_eq_ok_iff.2 rfl) (ih named.2)

namespace Pairs

/-- Rules are written as the pairs that they are read from. -/
theorem inRow_eq (h : Pairs file changed directives rules) :
    Directive.inRow (rules.map ends) = directives := by
  induction h with
  | nil => rfl
  | pair named closed more ih =>
    obtain ⟨-, rfl⟩ := readTargets_eq_ok_iff.1 named
    obtain rfl := readId_eq_ok_iff.1 closed
    rw [← ih]
    rfl

theorem isNamed (h : Pairs file changed directives rules) :
    ∀ rule ∈ rules, ∀ target ∈ rule.targets, target.IsNamed := by
  induction h with
  | nil => simp
  | pair named closed more ih =>
    rw [List.forall_mem_cons]
    exact ⟨(readTargets_eq_ok_iff.1 named).1, ih⟩

theorem placed_eq (h : Pairs file changed directives rules) :
    ∀ rule ∈ rules, rule.placed file changed = rule := by
  intro rule mem
  obtain ⟨opening, last, id, rfl⟩ := h.exists_close mem
  rfl

end Pairs

/-- Directives make rules exactly when the rules, with targets that can be written, are written as
these directives. -/
theorem ofDirectives_eq_ok_iff_ends :
    ofDirectives file changed directives = .ok rules ↔
      Directive.inRow (rules.map ends) = directives ∧
        ∀ rule ∈ rules, (∀ target ∈ rule.targets, target.IsNamed) ∧
          rule.placed file changed = rule := by
  rw [ofDirectives_eq_ok_iff]
  constructor
  · intro h
    exact ⟨h.inRow_eq, fun rule mem => ⟨h.isNamed rule mem, h.placed_eq rule mem⟩⟩
  · rintro ⟨rfl, each⟩
    have same : rules.map (·.placed file changed) = rules :=
      (List.map_congr_left fun rule mem => (each rule mem).2).trans (List.map_id' rules)
    have h : Pairs file changed _ _ := pairs_ends fun rule mem => (each rule mem).1
    rwa [same] at h

/-! ## Rows of pairs -/

theorem exists_rules_inRow {pairs : List (Directive × Directive)}
    (h : ∀ pair ∈ pairs, Directive.IsPair pair) :
    ∃ rules, Pairs file changed (Directive.inRow pairs) rules := by
  induction pairs with
  | nil => exact ⟨[], .nil⟩
  | cons pair rest ih =>
    rw [List.forall_mem_cons] at h
    obtain ⟨rules, more⟩ := ih h.2
    obtain ⟨⟨opening, arguments, first⟩, ⟨closing, ids, last⟩⟩ := pair
    obtain ⟨opens, named, closes, short⟩ := h.1
    dsimp only at opens named closes short
    subst opens closes
    obtain ⟨targets, read⟩ := exists_readTargets_iff.2 named
    obtain ⟨id, closed⟩ := exists_readId_iff.2 short
    exact ⟨_, .pair read closed more⟩

theorem exists_ofDirectives_iff :
    (∃ rules, ofDirectives file changed directives = .ok rules) ↔
      ∃ pairs, directives = Directive.inRow pairs ∧ ∀ pair ∈ pairs, Directive.IsPair pair := by
  simp only [ofDirectives_eq_ok_iff]
  constructor
  · rintro ⟨rules, h⟩
    refine ⟨rules.map ends, h.inRow_eq.symm, ?_⟩
    intro pair mem
    obtain ⟨rule, listed, rfl⟩ := List.mem_map.1 mem
    refine ⟨rfl, ?_, rfl, ?_⟩
    · apply (@exists_readTargets_iff file 0 _).1
      exact ⟨rule.targets, readTargets_eq_ok_iff.2 ⟨h.isNamed rule listed, rfl⟩⟩
    · apply (@exists_readId_iff file 0 _).1
      exact ⟨rule.id, readId_eq_ok_iff.2 rfl⟩
  · rintro ⟨pairs, rfl, each⟩
    exact exists_rules_inRow each

theorem ofDirectives_append (h : ofDirectives file changed a = .ok rules) (b : List Directive) :
    ofDirectives file changed (a ++ b) = (ofDirectives file changed b).map (rules ++ ·) := by
  unfold ofDirectives at h ⊢
  induction ofDirectives_eq_ok_iff.1 h with
  | nil =>
    rw [List.nil_append]
    cases ofDirectivesFrom file changed none b <;> rfl
  | pair named closed more ih =>
    have later := ih (ofDirectives_of_pairs more)
    rw [List.cons_append, List.cons_append, ofDirectivesFrom, named]
    show ofDirectivesFrom file changed _ (_ :: _) = _
    rw [ofDirectivesFrom, closed]
    show (ofDirectivesFrom file changed none _ >>= _) = _
    rw [later]
    cases ofDirectivesFrom file changed none b <;> rfl

/-- **Nothing is lost.** Directives make rules exactly when they are a row of pairs of an IF and an
END, in which every argument of an IF names a target and an END has at most one argument. Then
there is one rule for each pair, and the rules are written as the directives that were read.
Conversely, rules with targets that can be written are read back from what they are written as, up
to their file and presence. What follows a row of pairs is read on its own, and its rules come
behind, or its fault is the outcome. -/
theorem ofDirectives_transcribes (file : String) (changed : List Span) :
    (∀ directives, (∃ rules, ofDirectives file changed directives = .ok rules) ↔
      ∃ pairs, directives = Directive.inRow pairs ∧ ∀ pair ∈ pairs, Directive.IsPair pair) ∧
    (∀ directives rules, ofDirectives file changed directives = .ok rules →
      Directive.inRow (rules.map ends) = directives ∧
        ∀ pairs, directives = Directive.inRow pairs → rules.length = pairs.length) ∧
    (∀ rules : List Rule, (∀ rule ∈ rules, ∀ target ∈ rule.targets, target.IsNamed) →
      ofDirectives file changed (Directive.inRow (rules.map ends)) =
        .ok (rules.map (·.placed file changed))) ∧
    ∀ a b rules, ofDirectives file changed a = .ok rules →
      ofDirectives file changed (a ++ b) = (ofDirectives file changed b).map (rules ++ ·) := by
  refine ⟨fun directives => exists_ofDirectives_iff, ?_, ?_, fun a b rules h =>
    ofDirectives_append h b⟩
  · intro directives rules h
    obtain ⟨eq, -⟩ := ofDirectives_eq_ok_iff_ends.1 h
    refine ⟨eq, ?_⟩
    rintro pairs rfl
    have lengths := congrArg List.length eq
    rw [Directive.length_inRow, Directive.length_inRow, List.length_map] at lengths
    omega
  · intro rules named
    exact ofDirectives_eq_ok_iff.2 (pairs_ends named)

/-- An identifier may hold a colon. An END behind two rules has no rule to close. -/
theorem ofDirectives_transcribes_twoRules :
    let rules : List Rule :=
      [⟨"b.py", ⟨1, 3⟩, [⟨some "c.py", some "x:y"⟩, ⟨none, some "z"⟩], some "", true⟩,
        ⟨"b.py", ⟨4, 9⟩, [], none, true⟩]
    let directives := Directive.inRow (rules.map ends)
    ofDirectives "a.py" [⟨2, 2⟩] directives =
        .ok [⟨"a.py", ⟨1, 3⟩, [⟨some "c.py", some "x:y"⟩, ⟨none, some "z"⟩], some "", true⟩,
          ⟨"a.py", ⟨4, 9⟩, [], none, false⟩] ∧
      ofDirectives "a.py" [⟨2, 2⟩] (directives ++ [⟨.endWord, [], 12⟩]) =
        .error (.badDirective "a.py" 12 .strayEnd) := by
  intro rules directives
  obtain ⟨-, -, back, append⟩ := ofDirectives_transcribes "a.py" [⟨2, 2⟩]
  have named : ∀ rule ∈ rules, ∀ target ∈ rule.targets, target.IsNamed := by
    have first : Target.IsNamed ⟨some "c.py", some "x:y"⟩ := by
      refine ⟨?_, ?_, by decide⟩ <;> rintro _ ⟨⟩ <;> decide
    have second : Target.IsNamed ⟨none, some "z"⟩ := by
      refine ⟨?_, ?_, by decide⟩ <;> rintro _ ⟨⟩
      decide
    simp [rules, first, second]
  have read := back rules named
  exact ⟨read, append directives [⟨.endWord, [], 12⟩] _ read⟩

end Rule

end CoChange
