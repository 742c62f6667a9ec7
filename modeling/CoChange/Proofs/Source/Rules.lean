import CoChange.Proofs.Directive.LineOrder
import CoChange.Proofs.Rule.Pairs
import CoChange.Source

/-!
# The rules of a file

What is known of every rule that a file has: it lies in the file, ends below its first line and
above the next rule, and is present exactly when a changed span shares a line with it
(`present_iff_of_rulesIn`).
-/

namespace CoChange.Source

variable {source : Source} {table : TemplateTable} {changed : List Span} {file : String}
  {rules : List Rule}

theorem rulesIn_eq_ok_iff :
    source.rulesIn table changed file = .ok rules ↔
      ∃ templates text directives, table.forPath file = .ok templates ∧
        source.read file = .ok text ∧ Directive.scan file templates text = .ok directives ∧
          Rule.Pairs file changed directives rules := by
  simp only [rulesIn, Outcome.bind_eq_ok_iff, Rule.ofDirectives_eq_ok_iff]
  constructor
  · rintro ⟨templates, known, text, read, directives, scanned, pairs⟩
    exact ⟨templates, text, directives, known, read, scanned, pairs⟩
  · rintro ⟨templates, text, directives, known, read, scanned, pairs⟩
    exact ⟨templates, known, text, read, directives, scanned, pairs⟩

theorem file_of_rulesIn (h : source.rulesIn table changed file = .ok rules) {rule : Rule}
    (mem : rule ∈ rules) : rule.file = file := by
  obtain ⟨_, _, _, _, _, _, pairs⟩ := rulesIn_eq_ok_iff.1 h
  exact pairs.file_eq mem

theorem first_lt_last_of_rulesIn (h : source.rulesIn table changed file = .ok rules)
    {rule : Rule} (mem : rule ∈ rules) : rule.span.first < rule.span.last := by
  obtain ⟨_, _, _, _, _, scanned, pairs⟩ := rulesIn_eq_ok_iff.1 h
  exact pairs.first_lt_last (Directive.ordered_of_scan scanned) mem

theorem last_lt_first_of_rulesIn (h : source.rulesIn table changed file = .ok rules) :
    rules.Pairwise fun a b => a.span.last < b.span.first := by
  obtain ⟨_, _, _, _, _, scanned, pairs⟩ := rulesIn_eq_ok_iff.1 h
  exact pairs.last_lt_first (Directive.ordered_of_scan scanned)

/-- A rule is present exactly when it shares a line with a changed span. -/
theorem present_iff_of_rulesIn (h : source.rulesIn table changed file = .ok rules)
    (forward : ∀ span ∈ changed, span.first ≤ span.last) {rule : Rule} (mem : rule ∈ rules) :
    rule.present = true ↔ ∃ line ∈ rule.span, ∃ span ∈ changed, line ∈ span := by
  obtain ⟨_, _, _, _, _, _, pairs⟩ := rulesIn_eq_ok_iff.1 h
  have filled := Nat.le_of_lt (first_lt_last_of_rulesIn h mem)
  rw [pairs.present_eq mem, List.any_eq_true]
  constructor
  · rintro ⟨span, hspan, meets⟩
    obtain ⟨line, hline, shared⟩ := (Span.meets_iff_exists (forward span hspan) filled).1 meets
    exact ⟨line, shared, span, hspan, hline⟩
  · rintro ⟨line, shared, span, hspan, hline⟩
    exact ⟨span, hspan, (Span.meets_iff_exists (forward span hspan) filled).2 ⟨line, hline, shared⟩⟩

end CoChange.Source
