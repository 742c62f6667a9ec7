import CoChange.Proofs.Hunk.Run
import Mathlib.Data.List.Basic

/-!
# More lines than a header announces

A header says how many lines of both sides its body has. A line that counts for the new side when
this side has all its lines is refused as long as the old side still waits for some
(`Owed.take_of_settled`). Once neither side does, the body is over, and further lines that could
only stand in a body do not matter: the diff is read as if they were not there
(`Run.readLines_insert`). So it depends on the order of the lines of a body whether one too many is
noticed (`readDiff_of_surplus`).
-/

namespace CoChange.Hunk

/-- A line that has a place in bodies only: one of both sides, or an added one that could not name
the file of a section. -/
def IsSurplus (line : List Char) : Prop :=
  line.head? = some ' ' ∨ line.head? = some '+' ∧ ¬ "+++ ".toList <+: line

instance (line : List Char) : Decidable (IsSurplus line) := by
  unfold IsSurplus; infer_instance

/-- Lines of a body that leave `next` owed. -/
structure Owed.Leaves (owed : Owed) (taken : List (List Char)) (next : Owed) : Prop where
  lines : ∀ line ∈ taken, isBodyLine line = true
  old : taken.countP countsOld + next.old = owed.old
  new : taken.countP countsNew + next.new = owed.new

/-- The lines `above` lead to a place in a section where `heading` is read as a header. -/
structure Announces (above : List (List Char)) (heading : List Char) (header : Header) : Prop where
  reached : ∃ current found, current ≠ .outside ∧ Run .start above found ⟨current, .nothing⟩
  read : Header.read heading = .ok header

/-! ## Surplus lines -/

section

variable {line : List Char}

theorem IsSurplus.countsNew (h : IsSurplus line) : countsNew line = true := by
  unfold Hunk.countsNew isContext isAdded
  rcases h with context | ⟨added, -⟩
  · rw [context]
    rfl
  · rw [added]
    rfl

theorem IsSurplus.isIdle (h : IsSurplus line) : IsIdle line := by
  cases line with
  | nil => rcases h with context | ⟨added, -⟩ <;> contradiction
  | cons c rest =>
    have marks : c = ' ' ∨ c = '+' := h.imp Option.some.inj fun added => Option.some.inj added.1
    have names : ¬ "+++ ".toList <+: c :: rest := by
      rcases h with context | ⟨-, names⟩
      · obtain rfl : c = ' ' := Option.some.inj context
        simp [List.cons_prefix_cons]
      · exact names
    rcases marks with rfl | rfl
    · exact ⟨by simp [List.cons_prefix_cons], names, by simp [List.cons_prefix_cons]⟩
    · exact ⟨by simp [List.cons_prefix_cons], names, by simp [List.cons_prefix_cons]⟩

/-- A line for a side that waits for none is refused. -/
theorem Owed.take_of_settled {owed : Owed} (counts : Hunk.countsNew line = true)
    (settled : owed.new = 0) : owed.take line = .error .bodyTooLong := by
  obtain ⟨old, new⟩ := owed
  obtain rfl : new = 0 := settled
  cases line with
  | nil => cases old <;> rfl
  | cons c rest =>
    have marks : c = ' ' ∨ c = '+' := by
      simpa [Hunk.countsNew, isContext, isAdded] using counts
    rcases marks with rfl | rfl
    · cases old <;> rfl
    · rfl

end

/-! ## Runs over bodies -/

section

variable {owed next : Owed} {taken body surplus : List (List Char)}

theorem Owed.Leaves.run (h : owed.Leaves taken next) (owes : next ≠ .nothing) (current : Section) :
    Run ⟨current, owed⟩ taken [] ⟨current, next⟩ := by
  induction taken generalizing owed with
  | nil =>
    obtain ⟨old, new⟩ := owed
    obtain ⟨-, rfl, rfl⟩ := h
    rw [List.countP_nil, List.countP_nil, Nat.zero_add, Nat.zero_add]
    exact .nil
  | cons line taken ih =>
    have old : taken.countP countsOld + (countsOld line).toNat + next.old = owed.old := by
      rw [← h.old, List.countP_cons]
      cases countsOld line <;> rfl
    have new : taken.countP countsNew + (countsNew line).toNat + next.new = owed.new := by
      rw [← h.new, List.countP_cons]
      cases countsNew line <;> rfl
    -- Lines only take off what is owed, so where something is left there was something before.
    have more : owed ≠ .nothing := by
      rintro rfl
      obtain ⟨nextOld, nextNew⟩ := next
      simp only [Owed.nothing] at old new
      obtain rfl : nextOld = 0 := by omega
      obtain rfl : nextNew = 0 := by omega
      exact owes rfl
    have step : owed.take line =
        .ok ⟨taken.countP countsOld + next.old, taken.countP countsNew + next.new⟩ := by
      refine Owed.take_eq_ok_iff.2 ⟨h.lines line List.mem_cons_self, ?_, ?_⟩
      · show owed.old = taken.countP countsOld + next.old + (countsOld line).toNat
        omega
      · show owed.new = taken.countP countsNew + next.new + (countsNew line).toNat
        omega
    have rest : ∀ other ∈ taken, isBodyLine other = true := fun other mem =>
      h.lines other (List.mem_cons_of_mem _ mem)
    exact .cons (take_of_taken more step current) (ih ⟨rest, rfl, rfl⟩)

theorem Owed.Fills.run (h : owed.Fills body) (current : Section) :
    Run ⟨current, owed⟩ body [] ⟨current, .nothing⟩ := by
  induction body generalizing owed with
  | nil =>
    rw [h.eq_nothing_of_nil]
    exact .nil
  | cons line body ih =>
    obtain ⟨owes, next, taken, fills⟩ := Owed.fills_cons_iff.1 h
    exact .cons (take_of_taken owes taken current) (ih fills)

/-- Between hunks, surplus lines lead nowhere. -/
theorem run_of_surplus (all : ∀ line ∈ surplus, IsSurplus line) (current : Section) :
    Run ⟨current, .nothing⟩ surplus [] ⟨current, .nothing⟩ := by
  induction surplus with
  | nil => exact .nil
  | cons line surplus ih =>
    obtain ⟨first, others⟩ := List.forall_mem_cons.1 all
    exact .cons (TakesOutside.skip first.isIdle).take_eq (ih others)

end

theorem Announces.exists_run {above : List (List Char)} {heading : List Char} {header : Header}
    (h : Announces above heading header) :
    ∃ current found, Run .start (above ++ [heading]) found
      ⟨current, ⟨header.oldCount, header.newCount⟩⟩ := by
  obtain ⟨current, found, inside, run⟩ := h.reached
  have taken := (TakesOutside.hunk inside h.read).take_eq
  exact ⟨current, _, run.append (.cons taken .nil)⟩

/-! ## Diffs -/

/-- **Surplus.** Behind a header, a line that is one too many for the new side is refused where the
old side still waits for lines. Behind a whole body, lines that could only stand in a body make no
difference, however many there are. -/
theorem readDiff_of_surplus {above : List (List Char)} {heading : List Char} {header : Header}
    (announced : Announces above heading header) (text : String) :
    (∀ taken line rest old, IsSurplus line →
      Owed.Leaves ⟨header.oldCount, header.newCount⟩ taken ⟨old + 1, 0⟩ →
      Text.lines text.toList = above ++ heading :: (taken ++ line :: rest) →
      readDiff text = .error (.malformedDiff (above.length + taken.length + 2) .bodyTooLong)) ∧
    ∀ body surplus rest, (∀ line ∈ surplus, IsSurplus line) →
      Owed.Fills ⟨header.oldCount, header.newCount⟩ body →
      Text.lines text.toList = above ++ heading :: (body ++ (surplus ++ rest)) →
      readDiff text = (readLines .start 0 (above ++ heading :: (body ++ rest))).mapError
        (Fault.below surplus.length) := by
  obtain ⟨current, found, run⟩ := announced.exists_run
  constructor
  · intro taken line rest old isSurplus leaves cut
    have owes : (⟨old + 1, 0⟩ : Owed) ≠ .nothing := by
      intro eq
      cases eq
    have place :
        0 + (above ++ [heading] ++ taken).length + 1 = above.length + taken.length + 2 := by
      rw [List.length_append, List.length_append, List.length_singleton]
      omega
    have refused : State.take ⟨current, ⟨old + 1, 0⟩⟩ line = .error .bodyTooLong := by
      rw [take_of_owed owes, Owed.take_of_settled isSurplus.countsNew rfl]
      rfl
    have lines : above ++ heading :: (taken ++ line :: rest) =
        above ++ [heading] ++ taken ++ line :: rest := by simp
    rw [readDiff, cut, lines, (run.append (leaves.run owes current)).readLines_append, readLines,
      refused]
    show Except.error _ = _
    rw [place]
  · intro body surplus rest isSurplus fills cut
    have longer : above ++ heading :: (body ++ (surplus ++ rest)) =
        above ++ [heading] ++ body ++ (surplus ++ rest) := by simp
    have shorter : above ++ heading :: (body ++ rest) = above ++ [heading] ++ body ++ rest := by
      simp
    rw [readDiff, cut, longer, shorter]
    have loop := run_of_surplus isSurplus current
    exact (run.append (fills.run current)).readLines_insert loop 0 rest

theorem announces_edit :
    Announces ["+++ b/f".toList] "@@ -1 +1 @@".toList ⟨1, 1, 1⟩ := by
  have named : State.start.take "+++ b/f".toList = .ok (⟨.file "f", .nothing⟩, none) := by
    decide +kernel
  exact ⟨⟨.file "f", _, by decide, .cons named .nil⟩, by decide +kernel⟩

theorem fills_edit : Owed.Fills ⟨1, 1⟩ ["-a".toList, "+b".toList] := by
  refine ⟨by decide, by decide, by decide, fun line last => ?_⟩
  cases last
  decide

/-- One added line too many is refused above the removed line, and makes no difference below it. -/
theorem readDiff_of_surplus_twoOrders :
    Announces ["+++ b/f".toList] "@@ -1 +1 @@".toList ⟨1, 1, 1⟩ ∧
      readDiff "+++ b/f\n@@ -1 +1 @@\n+b\n+c\n-a\n" = .error (.malformedDiff 4 .bodyTooLong) ∧
      readDiff "+++ b/f\n@@ -1 +1 @@\n-a\n+b\n+c\n d\n@@\n" =
        .error (.malformedDiff 7 .badHeader) := by
  obtain ⟨refused, -⟩ :=
    readDiff_of_surplus announces_edit "+++ b/f\n@@ -1 +1 @@\n+b\n+c\n-a\n"
  obtain ⟨-, passed⟩ :=
    readDiff_of_surplus announces_edit "+++ b/f\n@@ -1 +1 @@\n-a\n+b\n+c\n d\n@@\n"
  have leaves : Owed.Leaves ⟨1, 1⟩ ["+b".toList] ⟨1, 0⟩ := ⟨by decide, by decide, by decide⟩
  have shorter : readLines .start 0 (["+++ b/f".toList] ++ "@@ -1 +1 @@".toList ::
      (["-a".toList, "+b".toList] ++ ["@@".toList])) = .error (.malformedDiff 5 .badHeader) := by
    decide +kernel
  refine ⟨announces_edit, ?_, ?_⟩
  · exact refused ["+b".toList] "+c".toList ["-a".toList] 0 (by decide) leaves (by decide)
  · rw [passed _ ["+c".toList, " d".toList] ["@@".toList] (by decide) fills_edit (by decide),
      shorter]
    rfl

/-- A body that is longer than its header announces can be read. -/
theorem readDiff_longerBody :
    let text := "+++ b/f\n@@ -1 +1 @@\n-a\n+b\n+c\n"
    Announces ["+++ b/f".toList] "@@ -1 +1 @@".toList ⟨1, 1, 1⟩ ∧
      Owed.Fills ⟨1, 1⟩ ["-a".toList, "+b".toList] ∧ IsSurplus "+c".toList ∧
      Text.lines text.toList =
        ["+++ b/f".toList] ++ "@@ -1 +1 @@".toList ::
          (["-a".toList, "+b".toList] ++ ["+c".toList]) ∧
      readDiff text = .ok [⟨"f", ⟨1, 1⟩⟩] := by
  refine ⟨announces_edit, fills_edit, by decide, by decide, by decide +kernel⟩

end CoChange.Hunk
