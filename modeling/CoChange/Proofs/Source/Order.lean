import CoChange.Proofs.Directive.Held
import CoChange.Proofs.Rule.Transcript
import CoChange.Proofs.Source.Presence

/-!
# The rules of a file in order

The lines of a file that hold directives, taken in turn, start and end its rules, so the rules lie
one below the other and no line belongs to two of them (`rulesIn_in_order`). The order is that in
which the lines are scanned; nothing checks it.
-/

namespace CoChange

namespace Directive

/-- The numbers of the lines that have both ends of a template, the first line of which has the
given number. -/
def heldLines (templates : List Template) (number : Nat) (lines : List (List Char)) : List Nat :=
  ((lines.zipIdx number).filter fun numbered => (body? templates numbered.1).isSome).map (·.2)

variable {file : String} {templates : List Template} {number : Nat} {lines : List (List Char)}
  {directives : List Directive}

theorem heldLines_eq_map_fst :
    heldLines templates number lines = (heldWords templates number lines).map (·.1) := by
  unfold heldLines heldWords
  induction lines.zipIdx number with
  | nil => rfl
  | cons numbered rest ih =>
    obtain ⟨line, n⟩ := numbered
    rw [List.filter_cons, List.filterMap_cons]
    dsimp only
    cases body? templates line with
    | none => exact ih
    | some body => exact congrArg (n :: ·) ih

theorem map_line_eq (h : ofLines file templates number lines = .ok directives) :
    directives.map (·.line) = heldLines templates number lines := by
  rw [heldLines_eq_map_fst, ofLines_eq_ok_iff.1 h, List.map_map]
  rfl

end Directive

namespace Rule

variable {file : String} {changed : List Span} {directives : List Directive} {rules : List Rule}

/-- The keywords of directives in pairs alternate, on the first and the last lines of the rules. -/
theorem Pairs.map_keyword_line_eq (h : Pairs file changed directives rules) :
    directives.map (fun directive => (directive.keyword, directive.line)) =
      rules.flatMap fun rule => [(.ifWord, rule.span.first), (.endWord, rule.span.last)] := by
  rw [← h.inRow_eq, Directive.inRow, List.map_flatMap, List.flatMap_map]
  rfl

theorem Pairs.map_line_eq (h : Pairs file changed directives rules) :
    directives.map (·.line) = rules.flatMap fun rule => [rule.span.first, rule.span.last] := by
  rw [← h.inRow_eq, Directive.inRow, List.map_flatMap, List.flatMap_map]
  rfl

/-- Of rules that lie one below the other, at most one has a given line. -/
theorem length_filter_mem_le_one
    (below : rules.Pairwise fun a b => a.span.last < b.span.first) (line : Nat) :
    (rules.filter (line ∈ ·.span)).length ≤ 1 := by
  have ordered := below.filter (line ∈ ·.span)
  have inside : ∀ rule ∈ rules.filter (line ∈ ·.span), line ∈ rule.span := by
    intro rule mem
    exact of_decide_eq_true (List.mem_filter.1 mem).2
  generalize rules.filter (line ∈ ·.span) = found at ordered inside ⊢
  match found with
  | [] => exact Nat.zero_le 1
  | [rule] => exact Nat.le_refl 1
  | upper :: lower :: rest =>
    have apart := (List.pairwise_cons.1 ordered).1 lower List.mem_cons_self
    have above := (inside upper List.mem_cons_self).2
    have beneath := (inside lower (List.mem_cons_of_mem _ List.mem_cons_self)).1
    omega

end Rule

namespace Source

variable {source : Source} {table : TemplateTable} {file text : String} {changed : List Span}
  {rules : List Rule}

/-- **Rules lie one below the other.** The rules of a file lie in it, each from its first line to a
later one among the lines of the text, each ends above the next, and no line has two of them. The
lines of the text that hold a directive are the first and the last lines of the rules in turn, an
IF and an END. A rule is present exactly when it shares a line with a changed span, and other spans
give the same rules with another presence. -/
theorem rulesIn_in_order (read : source.read file = .ok text)
    (forward : ∀ span ∈ changed, span.first ≤ span.last)
    (h : source.rulesIn table changed file = .ok rules) :
    (∀ rule ∈ rules, rule.file = file ∧ 1 ≤ rule.span.first ∧ rule.span.first < rule.span.last ∧
      rule.span.last ≤ (Text.lines text.toList).length) ∧
    rules.Pairwise (fun a b => a.span.last < b.span.first) ∧
    (∀ line, (rules.filter (line ∈ ·.span)).length ≤ 1) ∧
    (∃ templates directives, table.forPath file = .ok templates ∧
      Directive.scan file templates text = .ok directives ∧
      directives.map (fun directive => (directive.keyword, directive.line)) =
        rules.flatMap (fun rule => [(.ifWord, rule.span.first), (.endWord, rule.span.last)]) ∧
      Directive.heldLines templates 1 (Text.lines text.toList) =
        rules.flatMap fun rule => [rule.span.first, rule.span.last]) ∧
    (∀ rule ∈ rules, rule.present = true ↔ ∃ line ∈ rule.span, ∃ span ∈ changed, line ∈ span) ∧
    ∀ others, source.rulesIn table others file = .ok (rules.map (·.presentIn others)) := by
  have below := last_lt_first_of_rulesIn h
  obtain ⟨templates, found, directives, known, opened, scanned, pairs⟩ := rulesIn_eq_ok_iff.1 h
  obtain rfl : found = text := Except.ok.inj (opened.symm.trans read)
  have held := Directive.map_line_eq scanned
  rw [pairs.map_line_eq] at held
  refine ⟨?_, below, Rule.length_filter_mem_le_one below, ?_, ?_, ?_⟩
  · intro rule mem
    have ends : rule.span.last ∈ directives.map (·.line) := by
      rw [pairs.map_line_eq]
      exact List.mem_flatMap.2 ⟨rule, mem, by simp⟩
    obtain ⟨directive, listed, eq⟩ := List.mem_map.1 ends
    have bounds := Directive.line_bounds scanned listed
    refine ⟨file_of_rulesIn h mem, one_le_first_of_rulesIn h mem, first_lt_last_of_rulesIn h mem, ?_⟩
    omega
  · exact ⟨templates, directives, known, scanned, pairs.map_keyword_line_eq, held.symm⟩
  · intro rule mem
    exact present_iff_of_rulesIn h forward mem
  · intro others
    exact rulesIn_presentIn h others

/-- Of two blocks the second is present, and with other spans the first one is. -/
theorem rulesIn_in_order_twoBlocks :
    let text := "#LINT.IF b.py\ny\n#LINT.END\n\n#LINT.IF\n#LINT.END z"
    let source : Source := .ofTexts [("a.py", text)]
    let rules : List Rule :=
      [⟨"a.py", ⟨1, 3⟩, [⟨some "b.py", none⟩], none, false⟩,
        ⟨"a.py", ⟨5, 6⟩, [], some "z", true⟩]
    source.read "a.py" = .ok text ∧ source.rulesIn .builtIn [⟨6, 8⟩] "a.py" = .ok rules ∧
      (∀ line, (rules.filter (line ∈ ·.span)).length ≤ 1) ∧
      source.rulesIn .builtIn [⟨2, 2⟩] "a.py" =
        .ok [⟨"a.py", ⟨1, 3⟩, [⟨some "b.py", none⟩], none, true⟩,
          ⟨"a.py", ⟨5, 6⟩, [], some "z", false⟩] := by
  intro text source rules
  have read : source.read "a.py" = .ok text := Outcome.eq_ok_of_toOption (by decide +kernel)
  have made : source.rulesIn .builtIn [⟨6, 8⟩] "a.py" = .ok rules :=
    Outcome.eq_ok_of_toOption (by decide +kernel)
  have forward : ∀ span ∈ ([⟨6, 8⟩] : List Span), span.first ≤ span.last := by decide
  obtain ⟨-, -, apart, -, -, others⟩ := rulesIn_in_order read forward made
  exact ⟨read, made, apart, others [⟨2, 2⟩]⟩

end Source

end CoChange
