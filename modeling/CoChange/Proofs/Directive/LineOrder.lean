import CoChange.Directive
import CoChange.Proofs.Outcome

/-!
# Directives in line order

Scanning puts the directives of a text in the order of their lines, at most one for each line, and
the line of each is a line of the text.
-/

namespace CoChange.Directive

variable {file : String} {templates : List Template} {number : Nat} {line : List Char}
  {lines : List (List Char)} {directives : List Directive}

theorem line_of_ofLine {directive : Directive}
    (h : ofLine file templates number line = .ok (some directive)) : directive.line = number := by
  unfold ofLine at h
  split at h
  · cases h
  · obtain ⟨found, hfound, eq⟩ := Outcome.map_eq_ok_iff.1 h
    cases eq
    unfold ofWords at hfound
    split at hfound <;> cases hfound
    rfl

theorem ofLines_cons_eq_ok_iff :
    ofLines file templates number (line :: lines) = .ok directives ↔
      ∃ found more, ofLine file templates number line = .ok found ∧
        ofLines file templates (number + 1) lines = .ok more ∧
          directives = found.toList ++ more := by
  simp only [ofLines, Outcome.bind_eq_ok_iff]
  constructor
  · rintro ⟨found, hfound, more, hmore, eq⟩
    exact ⟨found, more, hfound, hmore, (Except.ok.inj eq).symm⟩
  · rintro ⟨found, more, hfound, hmore, rfl⟩
    exact ⟨found, hfound, more, hmore, rfl⟩

theorem line_bounds (h : ofLines file templates number lines = .ok directives)
    {directive : Directive} (mem : directive ∈ directives) :
    number ≤ directive.line ∧ directive.line < number + lines.length := by
  induction lines generalizing number directives with
  | nil => cases h; cases mem
  | cons line lines ih =>
    obtain ⟨found, more, hfound, hmore, rfl⟩ := ofLines_cons_eq_ok_iff.1 h
    rw [List.length_cons]
    rcases List.mem_append.1 mem with mem | mem
    · have eq := line_of_ofLine (hfound.trans (congrArg _ (Option.mem_toList.1 mem)))
      omega
    · have := ih hmore mem
      omega

theorem ordered_of_ofLines (h : ofLines file templates number lines = .ok directives) :
    directives.Pairwise (·.line < ·.line) := by
  induction lines generalizing number directives with
  | nil => cases h; exact .nil
  | cons line lines ih =>
    obtain ⟨found, more, hfound, hmore, rfl⟩ := ofLines_cons_eq_ok_iff.1 h
    cases found with
    | none => exact ih hmore
    | some directive =>
      refine List.pairwise_cons.2 ⟨fun later hlater => ?_, ih hmore⟩
      have here := line_of_ofLine hfound
      have below := line_bounds hmore hlater
      omega

theorem ordered_of_scan {text : String} (h : scan file templates text = .ok directives) :
    directives.Pairwise (·.line < ·.line) :=
  ordered_of_ofLines h

end CoChange.Directive
