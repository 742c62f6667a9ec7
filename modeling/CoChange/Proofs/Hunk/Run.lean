import CoChange.Proofs.Hunk.Layout

/-!
# Runs over some lines of a diff

A diff is read line by line, so its first lines lead to some place from where the lines behind them
are read (`Run`, `Run.readLines_append`). What is left of the first lines at that place, apart from
their hunks, is their number: it moves the faults of the lines behind them (`readLines_add`). Lines
that lead back to where they started could as well not be there (`Run.readLines_insert`).
-/

namespace CoChange

/-- A fault with `count` more lines of a diff above it. -/
def Fault.below (count : Nat) : Fault → Fault
  | .malformedDiff line flaw => .malformedDiff (line + count) flaw
  | fault => fault

namespace Hunk

/-! ## Single lines -/

theorem take_between (current : Section) (line : List Char) :
    State.take ⟨current, .nothing⟩ line = takeOutside current line := if_pos rfl

theorem TakesOutside.take_eq {current : Section} {line : List Char} {next : State}
    {hunk : Option Hunk} (h : TakesOutside current line next hunk) :
    State.take ⟨current, .nothing⟩ line = .ok (next, hunk) := (take_between current line).trans h.eq

section

variable {owed next : Owed} {line : List Char}

theorem take_of_owed (owes : owed ≠ .nothing) (current : Section) (line : List Char) :
    State.take ⟨current, owed⟩ line = (owed.take line).map fun owed => (⟨current, owed⟩, none) :=
  if_neg owes

theorem take_of_taken (owes : owed ≠ .nothing) (taken : owed.take line = .ok next)
    (current : Section) : State.take ⟨current, owed⟩ line = .ok (⟨current, next⟩, none) := by
  rw [take_of_owed owes, taken]
  rfl

end

/-! ## Runs -/

/-- Lines lead from one place to another and give hunks on the way. -/
inductive Run : State → List (List Char) → List Hunk → State → Prop
  | nil {state : State} : Run state [] [] state
  | cons {state next last : State} {line : List Char} {hunk : Option Hunk}
      {lines : List (List Char)} {hunks : List Hunk} (taken : state.take line = .ok (next, hunk))
      (tail : Run next lines hunks last) : Run state (line :: lines) (hunk.toList ++ hunks) last

section

variable {state mid last : State} {lines more : List (List Char)} {hunks others : List Hunk}

theorem Run.append (first : Run state lines hunks mid) (second : Run mid more others last) :
    Run state (lines ++ more) (hunks ++ others) last := by
  induction first with
  | nil => exact second
  | cons taken tail ih =>
    rw [List.cons_append, List.append_assoc]
    exact .cons taken (ih second)

/-- Reading goes on from the place that the first lines lead to. -/
theorem Run.readLines_append (run : Run state lines hunks last) (number : Nat)
    (rest : List (List Char)) :
    readLines state number (lines ++ rest) =
      (readLines last (number + lines.length) rest).map (hunks ++ ·) := by
  -- Each line of the run puts its hunk in front and raises the number of the lines behind it.
  induction run generalizing number with
  | nil =>
    show readLines _ number rest = (readLines _ number rest).map id
    rw [Except.map_id]
    rfl
  | @cons state next last line hunk lines hunks taken tail ih =>
    have place : number + 1 + lines.length = number + (line :: lines).length := by
      rw [List.length_cons]
      omega
    rw [List.cons_append, readLines, taken]
    show (readLines next (number + 1) (lines ++ rest)).map (hunk.toList ++ ·) = _
    rw [ih, place]
    cases readLines last (number + (line :: lines).length) rest with
    | error fault => rfl
    | ok more => exact congrArg Except.ok (List.append_assoc ..).symm

theorem exists_run {number : Nat} (read : readLines state number lines = .ok hunks) :
    ∃ current, Run state lines hunks ⟨current, .nothing⟩ := by
  induction lines generalizing state number hunks with
  | nil =>
    obtain ⟨current, owed⟩ := state
    by_cases between : owed = .nothing
    · subst between
      cases read
      exact ⟨current, .nil⟩
    · rw [readLines, if_neg between] at read
      cases read
  | cons line lines ih =>
    obtain ⟨next, hunk, more, taken, behind, rfl⟩ := readLines_cons_eq_ok_iff.1 read
    obtain ⟨current, tail⟩ := ih behind
    exact ⟨current, .cons taken tail⟩

/-- More lines above move the fault of a diff by their number, and change nothing else. -/
theorem readLines_add (state : State) (number count : Nat) (lines : List (List Char)) :
    readLines state (number + count) lines =
      (readLines state number lines).mapError (Fault.below count) := by
  induction lines generalizing state number with
  | nil =>
    unfold readLines
    split <;> rfl
  | cons line lines ih =>
    rw [readLines, readLines]
    cases state.take line with
    | error flaw =>
      have place : number + count + 1 = number + 1 + count := by omega
      rw [place]
      rfl
    | ok result =>
      obtain ⟨next, hunk⟩ := result
      show (readLines next (number + count + 1) lines).map _ =
        ((readLines next (number + 1) lines).map _).mapError _
      rw [Nat.add_right_comm, ih]
      cases readLines next (number + 1) lines <;> rfl

theorem Run.readLines_insert (first : Run state lines hunks mid) (loop : Run mid more [] mid)
    (number : Nat) (rest : List (List Char)) :
    readLines state number (lines ++ (more ++ rest)) =
      (readLines state number (lines ++ rest)).mapError (Fault.below more.length) := by
  have place : number + (lines ++ more).length = number + lines.length + more.length := by
    rw [List.length_append]
    omega
  have around := first.append loop
  rw [List.append_nil] at around
  rw [← List.append_assoc, around.readLines_append, first.readLines_append, place, readLines_add]
  cases readLines mid (number + lines.length) rest <;> rfl

end

end Hunk

end CoChange
