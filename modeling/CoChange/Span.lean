/-!
# Spans

A span is a run of lines of one file, given by its first and its last line, counted from one.
-/

namespace CoChange

/-- The lines from `first` to `last`, both included. -/
structure Span where
  first : Nat
  last : Nat
deriving DecidableEq, Repr, Inhabited

namespace Span

instance : Membership Nat Span := ⟨fun span line => span.first ≤ line ∧ line ≤ span.last⟩

theorem mem_iff {line : Nat} {span : Span} :
    line ∈ span ↔ span.first ≤ line ∧ line ≤ span.last := Iff.rfl

instance (line : Nat) (span : Span) : Decidable (line ∈ span) :=
  inferInstanceAs (Decidable (span.first ≤ line ∧ line ≤ span.last))

/-- Whether neither span ends before the other begins. -/
def meets (a b : Span) : Bool := a.first ≤ b.last && b.first ≤ a.last

theorem meets_comm (a b : Span) : a.meets b = b.meets a := by
  simp [meets, Bool.and_comm]

theorem meets_iff_exists {a b : Span} (ha : a.first ≤ a.last) (hb : b.first ≤ b.last) :
    a.meets b = true ↔ ∃ line, line ∈ a ∧ line ∈ b := by
  simp only [meets, Bool.and_eq_true, decide_eq_true_eq, mem_iff]
  constructor
  · rintro ⟨h₁, h₂⟩
    exact ⟨max a.first b.first, by omega, by omega⟩
  · rintro ⟨line, ⟨h₁, h₂⟩, h₃, h₄⟩
    omega

/-- Spans are ordered by their first line, then by their last. -/
protected def compare (a b : Span) : Ordering :=
  (Ord.compare a.first b.first).then (Ord.compare a.last b.last)

def text (span : Span) : String := toString span.first ++ "-" ++ toString span.last

end Span

end CoChange
