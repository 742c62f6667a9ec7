import CoChange.Proofs.Outcome
import CoChange.Rule.Reader

/-!
# Directives in pairs

The directives of a file make rules exactly when they are a row of pairs of an IF and an END
(`ofDirectives_eq_ok_iff`). What holds of every rule of a file is then an induction on its pairs:
a rule lies in the file, starts and ends at lines of directives, and is present when a changed
span meets it.
-/

namespace CoChange.Rule

/-- A row of pairs of an IF and an END, and the rules that they make. -/
inductive Pairs (file : String) (changed : List Span) : List Directive → List Rule → Prop
  | nil : Pairs file changed [] []
  | pair {first last : Nat} {arguments ids : List String} {targets : List Target}
      {id : Option String} {rest : List Directive} {rules : List Rule}
      (named : readTargets file first arguments = .ok targets)
      (closed : readId file last ids = .ok id) (more : Pairs file changed rest rules) :
      Pairs file changed (⟨.ifWord, arguments, first⟩ :: ⟨.endWord, ids, last⟩ :: rest)
        (close file changed ⟨first, targets⟩ last id :: rules)

variable {file : String} {changed : List Span} {directives : List Directive} {rules : List Rule}

/-- What the reader asks of the directives that follow, while a rule may be open. -/
def Follows (file : String) (changed : List Span) (directives : List Directive)
    (rules : List Rule) : Option Opening → Prop
  | none => Pairs file changed directives rules
  | some opening => ∃ ids last id rest more,
      directives = ⟨.endWord, ids, last⟩ :: rest ∧ readId file last ids = .ok id ∧
        rules = close file changed opening last id :: more ∧ Pairs file changed rest more

theorem follows_of_ok {opening : Option Opening}
    (h : ofDirectivesFrom file changed opening directives = .ok rules) :
    Follows file changed directives rules opening := by
  induction directives generalizing opening rules with
  | nil =>
    cases opening with
    | none => cases h; exact .nil
    | some opening => cases h
  | cons directive rest ih =>
    obtain ⟨keyword, arguments, line⟩ := directive
    cases opening with
    | none =>
      cases keyword with
      | endWord => cases h
      | ifWord =>
        obtain ⟨targets, named, h⟩ := Outcome.bind_eq_ok_iff.1 h
        obtain ⟨ids, last, id, rest', more, rfl, closed, rfl, pairs⟩ := ih h
        exact .pair named closed pairs
    | some opening =>
      cases keyword with
      | ifWord => cases h
      | endWord =>
        obtain ⟨id, closed, h⟩ := Outcome.bind_eq_ok_iff.1 h
        obtain ⟨more, read, h⟩ := Outcome.bind_eq_ok_iff.1 h
        cases h
        exact ⟨arguments, line, id, rest, more, rfl, closed, rfl, ih read⟩

theorem ofDirectives_of_pairs (h : Pairs file changed directives rules) :
    ofDirectives file changed directives = .ok rules := by
  unfold ofDirectives
  induction h with
  | nil => rfl
  | pair named closed _ ih =>
    refine Outcome.bind_eq_ok_iff.2 ⟨_, named, ?_⟩
    refine Outcome.bind_eq_ok_iff.2 ⟨_, closed, ?_⟩
    exact Outcome.bind_eq_ok_iff.2 ⟨_, ih, rfl⟩

/-- Directives make rules exactly when they come in pairs. -/
theorem ofDirectives_eq_ok_iff :
    ofDirectives file changed directives = .ok rules ↔ Pairs file changed directives rules :=
  ⟨follows_of_ok, ofDirectives_of_pairs⟩

namespace Pairs

theorem exists_close (h : Pairs file changed directives rules) {rule : Rule}
    (mem : rule ∈ rules) : ∃ opening last id, rule = close file changed opening last id := by
  induction h with
  | nil => cases mem
  | pair _ _ _ ih =>
    rcases List.mem_cons.1 mem with rfl | mem
    · exact ⟨_, _, _, rfl⟩
    · exact ih mem

theorem file_eq (h : Pairs file changed directives rules) {rule : Rule} (mem : rule ∈ rules) :
    rule.file = file := by
  obtain ⟨opening, last, id, rfl⟩ := h.exists_close mem
  rfl

theorem present_eq (h : Pairs file changed directives rules) {rule : Rule} (mem : rule ∈ rules) :
    rule.present = changed.any (·.meets rule.span) := by
  obtain ⟨opening, last, id, rfl⟩ := h.exists_close mem
  rfl

theorem first_lt_last (h : Pairs file changed directives rules)
    (ordered : directives.Pairwise (·.line < ·.line)) {rule : Rule} (mem : rule ∈ rules) :
    rule.span.first < rule.span.last := by
  induction h with
  | nil => cases mem
  | pair _ _ _ ih =>
    obtain ⟨below, ordered⟩ := List.pairwise_cons.1 ordered
    rcases List.mem_cons.1 mem with rfl | mem
    · exact below _ List.mem_cons_self
    · exact ih (List.pairwise_cons.1 ordered).2 mem

theorem exists_directive (h : Pairs file changed directives rules) {rule : Rule}
    (mem : rule ∈ rules) : ∃ directive ∈ directives, directive.line = rule.span.first := by
  induction h with
  | nil => cases mem
  | pair _ _ _ ih =>
    rcases List.mem_cons.1 mem with rfl | mem
    · exact ⟨_, List.mem_cons_self, rfl⟩
    · obtain ⟨directive, hdirective, eq⟩ := ih mem
      exact ⟨directive, List.mem_cons_of_mem _ (List.mem_cons_of_mem _ hdirective), eq⟩

theorem last_lt_first (h : Pairs file changed directives rules)
    (ordered : directives.Pairwise (·.line < ·.line)) :
    rules.Pairwise fun a b => a.span.last < b.span.first := by
  induction h with
  | nil => exact .nil
  | pair _ _ more ih =>
    obtain ⟨-, ordered⟩ := List.pairwise_cons.1 ordered
    obtain ⟨above, ordered⟩ := List.pairwise_cons.1 ordered
    refine List.pairwise_cons.2 ⟨fun rule mem => ?_, ih ordered⟩
    obtain ⟨directive, hdirective, eq⟩ := more.exists_directive mem
    rw [← eq]
    exact above directive hdirective

end Pairs

end CoChange.Rule
