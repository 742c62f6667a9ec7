import CoChange.Proofs.Source.Rules

/-!
# What changed spans decide

Of everything that is read of a file, the changed spans decide only which rules are present. Other
spans give the same rules with another presence (`rulesIn_eq_map`), or the same fault. A rule is
present when the spans cover one of its lines, so spans that cover the same lines give the same
rules (`rulesIn_congr`), and spans that cover more leave every present rule as it is
(`presentIn_of_present`).
-/

namespace CoChange

/-! ## Presence of rules -/

namespace Rule

/-- The rule, present if one of the spans meets it. -/
def presentIn (rule : Rule) (changed : List Span) : Rule :=
  { rule with present := changed.any (·.meets rule.span) }

theorem presentIn_eq_self {rule : Rule} {changed : List Span}
    (still : (rule.presentIn changed).present = rule.present) : rule.presentIn changed = rule := by
  calc rule.presentIn changed
      = { rule with present := (rule.presentIn changed).present } := rfl
    _ = rule := by rw [still]

variable {file : String}

theorem ofDirectivesFrom_eq_map (a b : List Span) (opening : Option Opening)
    (directives : List Directive) :
    ofDirectivesFrom file b opening directives =
      (ofDirectivesFrom file a opening directives).map (List.map (·.presentIn b)) := by
  induction directives generalizing opening with
  | nil => cases opening <;> rfl
  | cons directive rest ih =>
    obtain ⟨keyword, arguments, line⟩ := directive
    cases opening with
    | none =>
      cases keyword with
      | endWord => rfl
      | ifWord =>
        unfold ofDirectivesFrom
        cases readTargets file line arguments with
        | error fault => rfl
        | ok targets => exact ih (some ⟨line, targets⟩)
    | some opening =>
      cases keyword with
      | ifWord => rfl
      | endWord =>
        -- Only the END of a rule looks at the spans.
        unfold ofDirectivesFrom
        cases readId file line arguments with
        | error fault => rfl
        | ok id =>
          have later := ih none
          change (ofDirectivesFrom file b none rest >>= _) =
            (ofDirectivesFrom file a none rest >>= _).map _
          rw [later]
          cases ofDirectivesFrom file a none rest <;> rfl

end Rule

namespace Source

variable {source : Source} {table : TemplateTable} {file : String} {a b changed : List Span}
  {rules : List Rule}

/-- With other spans a file has the same rules, present in these spans, or the same fault. -/
theorem rulesIn_eq_map (source : Source) (table : TemplateTable) (file : String)
    (a b : List Span) :
    source.rulesIn table b file = (source.rulesIn table a file).map (List.map (·.presentIn b)) := by
  unfold rulesIn
  cases table.forPath file with
  | error fault => rfl
  | ok templates =>
    cases source.read file with
    | error fault => rfl
    | ok text =>
      change (Directive.scan file templates text >>= _) =
        (Directive.scan file templates text >>= _).map _
      cases Directive.scan file templates text with
      | error fault => rfl
      | ok directives => exact Rule.ofDirectivesFrom_eq_map a b none directives

theorem rulesIn_presentIn (h : source.rulesIn table a file = .ok rules) (b : List Span) :
    source.rulesIn table b file = .ok (rules.map (·.presentIn b)) := by
  rw [rulesIn_eq_map source table file a b, h]
  rfl

theorem one_le_first_of_rulesIn (h : source.rulesIn table changed file = .ok rules) {rule : Rule}
    (mem : rule ∈ rules) : 1 ≤ rule.span.first := by
  obtain ⟨_, _, _, _, _, scanned, pairs⟩ := rulesIn_eq_ok_iff.1 h
  obtain ⟨directive, hdirective, eq⟩ := pairs.exists_directive mem
  exact eq ▸ (Directive.line_bounds scanned hdirective).1

theorem present_presentIn_iff (h : source.rulesIn table a file = .ok rules)
    (forward : ∀ span ∈ b, span.first ≤ span.last) {rule : Rule} (mem : rule ∈ rules) :
    (rule.presentIn b).present = true ↔ ∃ line ∈ rule.span, ∃ span ∈ b, line ∈ span :=
  present_iff_of_rulesIn (rulesIn_presentIn h b) forward (List.mem_map_of_mem mem)

theorem presentIn_of_present (h : source.rulesIn table a file = .ok rules)
    (forwardA : ∀ span ∈ a, span.first ≤ span.last) (forwardB : ∀ span ∈ b, span.first ≤ span.last)
    {rule : Rule} (mem : rule ∈ rules) (present : rule.present = true)
    (more : ∀ line, (∃ span ∈ a, line ∈ span) → ∃ span ∈ b, line ∈ span) :
    rule.presentIn b = rule := by
  obtain ⟨line, inside, covered⟩ := (present_iff_of_rulesIn h forwardA mem).1 present
  have still := (present_presentIn_iff h forwardB mem).2 ⟨line, inside, more line covered⟩
  exact Rule.presentIn_eq_self (still.trans present.symm)

/-- Spans that cover the same lines give the same rules, or the same fault. -/
theorem rulesIn_congr (forwardA : ∀ span ∈ a, span.first ≤ span.last)
    (forwardB : ∀ span ∈ b, span.first ≤ span.last)
    (same : ∀ line, 1 ≤ line → ((∃ span ∈ a, line ∈ span) ↔ ∃ span ∈ b, line ∈ span)) :
    source.rulesIn table a file = source.rulesIn table b file := by
  rw [rulesIn_eq_map source table file a b]
  cases read : source.rulesIn table a file with
  | error fault => rfl
  | ok rules =>
    have kept : ∀ rule ∈ rules, rule.presentIn b = rule := by
      intro rule mem
      have first := one_le_first_of_rulesIn read mem
      refine Rule.presentIn_eq_self ?_
      rw [Bool.eq_iff_iff, present_presentIn_iff read forwardB mem,
        present_iff_of_rulesIn read forwardA mem]
      refine exists_congr fun line => and_congr_right fun inside => ?_
      exact (same line (Nat.le_trans first inside.1)).symm
    exact congrArg _ ((List.map_congr_left kept).trans (List.map_id' rules)).symm

end Source

end CoChange
