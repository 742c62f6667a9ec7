import CoChange.Hunk.Reader
import CoChange.Proofs.Outcome

/-!
# Bodies of hunks

A line of a body counts for the old side, for the new side, for both or for neither, as its first
character says. Lines fill what is owed when they count for each side as often as it asks for and
no line is left over (`Owed.Fills`). Taking a line takes off what it counts for
(`Owed.take_eq_ok_iff`), so the lines that the reader takes as a body are those that fill what the
header announces.
-/

namespace CoChange.Hunk

/-! ## Lines -/

/-- Whether a line stands on both sides. A line without characters does. -/
def isContext (line : List Char) : Bool := line.head? == none || line.head? == some ' '

def isAdded (line : List Char) : Bool := line.head? == some '+'

def isRemoved (line : List Char) : Bool := line.head? == some '-'

/-- Whether a line is a remark about the line before it. -/
def isRemark (line : List Char) : Bool := line.head? == some '\\'

def countsOld (line : List Char) : Bool := isContext line || isRemoved line

/-- Whether a line counts for the new side. -/
def countsNew (line : List Char) : Bool := isContext line || isAdded line

/-- Whether a line may stand in a body. -/
def isBodyLine (line : List Char) : Bool := countsOld line || countsNew line || isRemark line

theorem isRemark_eq_false_of_counts {line : List Char}
    (h : countsOld line = true ∨ countsNew line = true) : isRemark line = false := by
  simp only [countsOld, countsNew, isContext, isAdded, isRemoved, isRemark] at h ⊢
  cases line with
  | nil => rfl
  | cons c rest => grind

/-! ## Taking lines -/

namespace Owed

theorem takeOne_eq_ok_iff {n m : Nat} : takeOne n = .ok m ↔ n = m + 1 := by
  cases n <;> simp [takeOne]

theorem takeContext_eq_ok_iff {owed next : Owed} :
    (do
      let old ← takeOne owed.old
      let new ← takeOne owed.new
      return (⟨old, new⟩ : Owed)) = (.ok next : Except DiffFlaw Owed) ↔
      owed.old = next.old + 1 ∧ owed.new = next.new + 1 := by
  simp only [Outcome.bind_eq_ok_iff, takeOne_eq_ok_iff]
  constructor
  · rintro ⟨old, hold, new, hnew, eq⟩
    cases eq
    exact ⟨hold, hnew⟩
  · rintro ⟨hold, hnew⟩
    exact ⟨_, hold, _, hnew, rfl⟩

/-- A line is taken when it may stand in a body and no side that it counts for is exhausted. -/
theorem take_eq_ok_iff {owed next : Owed} {line : List Char} :
    owed.take line = .ok next ↔
      isBodyLine line = true ∧ owed.old = next.old + (countsOld line).toNat ∧
        owed.new = next.new + (countsNew line).toNat := by
  obtain ⟨old, new⟩ := owed
  obtain ⟨old', new'⟩ := next
  unfold take
  split
  · next rest =>
    have marks : isBodyLine ('+' :: rest) = true ∧ countsOld ('+' :: rest) = false ∧
      countsNew ('+' :: rest) = true := ⟨rfl, rfl, rfl⟩
    simp only [marks, Outcome.map_eq_ok_iff, takeOne_eq_ok_iff, Owed.mk.injEq, Bool.toNat_false,
      Bool.toNat_true]
    grind
  · next rest =>
    have marks : isBodyLine ('-' :: rest) = true ∧ countsOld ('-' :: rest) = true ∧
      countsNew ('-' :: rest) = false := ⟨rfl, rfl, rfl⟩
    simp only [marks, Outcome.map_eq_ok_iff, takeOne_eq_ok_iff, Owed.mk.injEq, Bool.toNat_false,
      Bool.toNat_true]
    grind
  · have marks : isBodyLine [] = true ∧ countsOld [] = true ∧ countsNew [] = true :=
      ⟨rfl, rfl, rfl⟩
    rw [takeContext_eq_ok_iff]
    simp only [marks, Bool.toNat_true, true_and]
  · next rest =>
    have marks : isBodyLine (' ' :: rest) = true ∧ countsOld (' ' :: rest) = true ∧
      countsNew (' ' :: rest) = true := ⟨rfl, rfl, rfl⟩
    rw [takeContext_eq_ok_iff]
    simp only [marks, Bool.toNat_true, true_and]
  · next rest =>
    have marks : isBodyLine ('\\' :: rest) = true ∧ countsOld ('\\' :: rest) = false ∧
      countsNew ('\\' :: rest) = false := ⟨rfl, rfl, rfl⟩
    simp only [marks, Except.ok.injEq, Owed.mk.injEq, Bool.toNat_false, Nat.add_zero, true_and]
  · next added removed empty context remark =>
    cases line with
    | nil => exact absurd rfl empty
    | cons c rest =>
      have : c ≠ '+' := fun h => added rest (h ▸ rfl)
      have : c ≠ '-' := fun h => removed rest (h ▸ rfl)
      have : c ≠ ' ' := fun h => context rest (h ▸ rfl)
      have : c ≠ '\\' := fun h => remark rest (h ▸ rfl)
      simp [isBodyLine, countsOld, countsNew, isContext, isAdded, isRemoved, isRemark, *]

/-! ## Filling what is owed -/

/-- The lines of a body that has exactly what is owed and ends with it. -/
structure Fills (owed : Owed) (body : List (List Char)) : Prop where
  lines : ∀ line ∈ body, isBodyLine line = true
  old : body.countP countsOld = owed.old
  new : body.countP countsNew = owed.new
  ends : ∀ line, body.getLast? = some line → isRemark line = false

theorem Fills.eq_nothing_of_nil {owed : Owed} (h : owed.Fills []) : owed = nothing := by
  obtain ⟨_, _⟩ := owed
  obtain ⟨-, rfl, rfl, -⟩ := h
  rfl

/-- Nothing fills what is not owed: a last line would have to count. -/
theorem fills_nothing_iff {body : List (List Char)} : nothing.Fills body ↔ body = [] := by
  constructor
  · intro h
    rcases List.eq_nil_or_concat body with rfl | ⟨init, line, rfl⟩
    · rfl
    · have old := h.old
      have new := h.new
      have remark := h.ends line (by simp)
      have allowed := h.lines line (by simp)
      rw [List.concat_eq_append, List.countP_append] at old new
      simp only [nothing, List.countP_singleton] at old new
      simp only [isBodyLine, remark] at allowed
      grind
  · rintro rfl
    exact ⟨by simp, rfl, rfl, by simp⟩

theorem fills_cons_iff {owed : Owed} {line : List Char} {body : List (List Char)} :
    owed.Fills (line :: body) ↔
      owed ≠ nothing ∧ ∃ next, owed.take line = .ok next ∧ next.Fills body := by
  constructor
  · intro h
    refine ⟨fun settled => ?_, ⟨body.countP countsOld, body.countP countsNew⟩, ?_, ?_⟩
    · rw [settled, fills_nothing_iff] at h
      cases h
    · have old := h.old
      have new := h.new
      rw [List.countP_cons] at old new
      refine take_eq_ok_iff.2 ⟨h.lines line List.mem_cons_self, ?_, ?_⟩
      · rw [← old]
        cases countsOld line <;> rfl
      · rw [← new]
        cases countsNew line <;> rfl
    · refine ⟨fun other mem => h.lines other (List.mem_cons_of_mem _ mem), rfl, rfl, ?_⟩
      intro last eq
      refine h.ends last ?_
      rw [List.getLast?_cons, eq]
      rfl
  · rintro ⟨owes, next, taken, fills⟩
    obtain ⟨allowed, old, new⟩ := take_eq_ok_iff.1 taken
    refine ⟨fun other mem => ?_, ?_, ?_, fun last eq => ?_⟩
    · rcases List.mem_cons.1 mem with rfl | mem
      · exact allowed
      · exact fills.lines other mem
    · rw [List.countP_cons, fills.old, old]
      cases countsOld line <;> rfl
    · rw [List.countP_cons, fills.new, new]
      cases countsNew line <;> rfl
    · rw [List.getLast?_cons] at eq
      cases tail : body.getLast? with
      | some other =>
        rw [tail] at eq
        cases eq
        exact fills.ends other tail
      | none =>
        -- A line that nothing follows is all that was owed, so it counts.
        rw [tail] at eq
        obtain rfl : line = last := Option.some.inj eq
        obtain rfl := List.getLast?_eq_none_iff.1 tail
        refine isRemark_eq_false_of_counts (Decidable.byContradiction fun idle => owes ?_)
        rw [not_or, Bool.not_eq_true, Bool.not_eq_true] at idle
        obtain ⟨_, _⟩ := owed
        obtain rfl := fills.eq_nothing_of_nil
        rw [idle.1] at old
        rw [idle.2] at new
        exact Owed.mk.injEq .. ▸ ⟨old, new⟩

end Owed

end CoChange.Hunk
