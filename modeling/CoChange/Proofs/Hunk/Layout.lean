import CoChange.Proofs.Hunk.Body
import CoChange.Proofs.Path.NormalForm

/-!
# Layouts of diffs

The lines of a diff lie one behind the other in pieces: lines that end a section, that open one or
that do not matter, and hunks, each of which is a header with a body that fills what it announces
(`Layout`). A diff can be read exactly when its lines have a layout, and its hunks are then those
of the layout, in order (`readDiff_eq_ok_iff`).
-/

namespace CoChange.Hunk

/-- A header with its body, in the section where it stands. -/
structure Piece where
  current : Section
  header : Header
  body : List (List Char)
deriving DecidableEq, Repr

/-- The hunk that a piece adds. A file that is gone has none. -/
def Piece.hunk? (piece : Piece) : Option Hunk := piece.current.hunk? piece.header

/-- A line that does not matter between hunks. -/
structure IsIdle (line : List Char) : Prop where
  leaves : ¬ "diff ".toList <+: line
  enters : ¬ "+++ ".toList <+: line
  starts : ¬ "@@".toList <+: line

/-- The layout of lines that follow a place in a section. -/
inductive Layout : Section → List (List Char) → List Piece → Prop
  | done {current : Section} : Layout current [] []
  | leave {current : Section} {text : List Char} {rest : List (List Char)} {pieces : List Piece}
      (tail : Layout .outside rest pieces) :
      Layout current (("diff ".toList ++ text) :: rest) pieces
  | enter {current : Section} {text : List Char} {rest : List (List Char)} {pieces : List Piece}
      (tail : Layout (.ofNewSide (newSide? text)) rest pieces) :
      Layout current (("+++ ".toList ++ text) :: rest) pieces
  | skip {current : Section} {line : List Char} {rest : List (List Char)} {pieces : List Piece}
      (idle : IsIdle line) (tail : Layout current rest pieces) :
      Layout current (line :: rest) pieces
  | hunk {current : Section} {line : List Char} {header : Header} {body rest : List (List Char)}
      {pieces : List Piece} (inside : current ≠ .outside) (read : Header.read line = .ok header)
      (fills : Owed.Fills ⟨header.oldCount, header.newCount⟩ body)
      (tail : Layout current rest pieces) :
      Layout current (line :: (body ++ rest)) (⟨current, header, body⟩ :: pieces)

/-! ## Single lines -/

theorem isPrefixOf?_eq_none_iff {opening line : List Char} :
    opening.isPrefixOf? line = none ↔ ¬ opening <+: line := by
  rw [Option.eq_none_iff_forall_ne_some]
  constructor
  · rintro absent ⟨rest, eq⟩
    exact absent rest (Text.isPrefixOf?_eq_some_iff.2 eq.symm)
  · intro absent rest eq
    exact absent ⟨rest, (Text.isPrefixOf?_eq_some_iff.1 eq).symm⟩

/-- A header starts with a hyphen behind its first two characters. -/
theorem prefix_of_read {line : List Char} {header : Header} (h : Header.read line = .ok header) :
    "@@ -".toList <+: line := by
  unfold Header.read at h
  split at h
  · cases h
  · next text found =>
    unfold HeaderText.read? at found
    obtain ⟨rest, eq, -⟩ := Option.bind_eq_some_iff.1 found
    exact ⟨rest, (Text.isPrefixOf?_eq_some_iff.1 eq).symm⟩

theorem not_idle_of_read {line : List Char} {header : Header} (h : Header.read line = .ok header) :
    ¬ "diff ".toList <+: line ∧ ¬ "+++ ".toList <+: line ∧ "@@".toList <+: line := by
  obtain ⟨rest, rfl⟩ := prefix_of_read h
  simp [List.cons_prefix_cons]

/-- The outcomes that are possible for a line between hunks. -/
inductive TakesOutside (current : Section) : List Char → State → Option Hunk → Prop
  | leave (text : List Char) :
      TakesOutside current ("diff ".toList ++ text) ⟨.outside, .nothing⟩ none
  | enter (text : List Char) :
      TakesOutside current ("+++ ".toList ++ text) ⟨.ofNewSide (newSide? text), .nothing⟩ none
  | skip {line : List Char} (idle : IsIdle line) :
      TakesOutside current line ⟨current, .nothing⟩ none
  | hunk {line : List Char} {header : Header} (inside : current ≠ .outside)
      (read : Header.read line = .ok header) :
      TakesOutside current line ⟨current, ⟨header.oldCount, header.newCount⟩⟩
        (current.hunk? header)

theorem takesOutside_of_eq {current : Section} {line : List Char} {next : State}
    {hunk : Option Hunk} (h : takeOutside current line = .ok (next, hunk)) :
    TakesOutside current line next hunk := by
  unfold takeOutside at h
  by_cases leaves : "diff ".toList.isPrefixOf line = true
  · rw [if_pos leaves] at h
    cases h
    obtain ⟨text, rfl⟩ := List.isPrefixOf_iff_prefix.1 leaves
    exact .leave text
  rw [if_neg leaves] at h
  cases enters : "+++ ".toList.isPrefixOf? line with
  | some text =>
    rw [enters] at h
    cases h
    obtain rfl := Text.isPrefixOf?_eq_some_iff.1 enters
    exact .enter text
  | none =>
    rw [enters] at h
    by_cases starts : "@@".toList.isPrefixOf line = true
    · dsimp only at h
      rw [if_pos starts] at h
      by_cases inside : current = .outside
      · rw [if_pos inside] at h
        cases h
      · rw [if_neg inside] at h
        obtain ⟨header, read, eq⟩ := Outcome.map_eq_ok_iff.1 h
        cases eq
        exact .hunk inside read
    · dsimp only at h
      rw [if_neg starts] at h
      cases h
      refine .skip ⟨?_, ?_, ?_⟩
      · rwa [← List.isPrefixOf_iff_prefix]
      · exact isPrefixOf?_eq_none_iff.1 enters
      · rwa [← List.isPrefixOf_iff_prefix]

theorem TakesOutside.eq {current : Section} {line : List Char} {next : State}
    {hunk : Option Hunk} (h : TakesOutside current line next hunk) :
    takeOutside current line = .ok (next, hunk) := by
  unfold takeOutside
  cases h with
  | leave text =>
    have leaves : "diff ".toList.isPrefixOf ("diff ".toList ++ text) = true :=
      List.isPrefixOf_iff_prefix.2 (List.prefix_append _ _)
    rw [if_pos leaves]
  | enter text =>
    have stays : ¬ "diff ".toList.isPrefixOf ("+++ ".toList ++ text) = true := by
      simp [List.isPrefixOf]
    have enters : "+++ ".toList.isPrefixOf? ("+++ ".toList ++ text) = some text :=
      Text.isPrefixOf?_eq_some_iff.2 rfl
    rw [if_neg stays, enters]
  | skip idle =>
    have stays := idle.leaves
    have ignored := idle.starts
    rw [← List.isPrefixOf_iff_prefix] at stays ignored
    rw [if_neg stays, isPrefixOf?_eq_none_iff.2 idle.enters]
    exact if_neg ignored
  | hunk inside read =>
    obtain ⟨stays, names, starts⟩ := not_idle_of_read read
    rw [← List.isPrefixOf_iff_prefix] at stays starts
    rw [if_neg stays, isPrefixOf?_eq_none_iff.2 names]
    dsimp only
    rw [if_pos starts, if_neg inside, read]
    rfl

/-! ## Runs -/

theorem readLines_cons_eq_ok_iff {state : State} {number : Nat} {line : List Char}
    {lines : List (List Char)} {hunks : List Hunk} :
    readLines state number (line :: lines) = .ok hunks ↔
      ∃ next hunk more, state.take line = .ok (next, hunk) ∧
        readLines next (number + 1) lines = .ok more ∧ hunks = hunk.toList ++ more := by
  rw [readLines]
  cases state.take line with
  | error flaw => simp
  | ok result =>
    obtain ⟨next, hunk⟩ := result
    constructor
    · intro h
      obtain ⟨more, read, eq⟩ := Outcome.map_eq_ok_iff.1 h
      exact ⟨next, hunk, more, rfl, read, eq.symm⟩
    · rintro ⟨next, hunk, more, taken, read, rfl⟩
      cases taken
      exact Outcome.map_eq_ok_iff.2 ⟨more, read, rfl⟩

theorem readLines_cons_iff {current : Section} {number : Nat} {line : List Char}
    {lines : List (List Char)} {hunks : List Hunk} :
    readLines ⟨current, .nothing⟩ number (line :: lines) = .ok hunks ↔
      ∃ next hunk more, TakesOutside current line next hunk ∧
        readLines next (number + 1) lines = .ok more ∧ hunks = hunk.toList ++ more := by
  have taken : State.take ⟨current, .nothing⟩ line = takeOutside current line := if_pos rfl
  rw [readLines_cons_eq_ok_iff, taken]
  constructor
  · rintro ⟨next, hunk, more, step, read, eq⟩
    exact ⟨next, hunk, more, takesOutside_of_eq step, read, eq⟩
  · rintro ⟨next, hunk, more, step, read, eq⟩
    exact ⟨next, hunk, more, step.eq, read, eq⟩

theorem readLines_cons_iff_of_owed {current : Section} {owed : Owed} {number : Nat}
    {line : List Char} {lines : List (List Char)} {hunks : List Hunk} (owes : owed ≠ .nothing) :
    readLines ⟨current, owed⟩ number (line :: lines) = .ok hunks ↔
      ∃ next, owed.take line = .ok next ∧
        readLines ⟨current, next⟩ (number + 1) lines = .ok hunks := by
  have taken : State.take ⟨current, owed⟩ line =
      (owed.take line).map fun owed => (⟨current, owed⟩, none) := if_neg owes
  rw [readLines_cons_eq_ok_iff, taken]
  constructor
  · rintro ⟨state, hunk, more, step, read, rfl⟩
    obtain ⟨next, fits, eq⟩ := Outcome.map_eq_ok_iff.1 step
    cases eq
    exact ⟨next, fits, read⟩
  · rintro ⟨next, fits, read⟩
    exact ⟨⟨current, next⟩, none, hunks, Outcome.map_eq_ok_iff.2 ⟨next, fits, rfl⟩, read, rfl⟩

/-- What is owed at some place is filled by lines that follow it, and reading goes on behind
them. -/
theorem readLines_iff_of_owed {current : Section} {owed : Owed} {number : Nat}
    {lines : List (List Char)} {hunks : List Hunk} :
    readLines ⟨current, owed⟩ number lines = .ok hunks ↔
      ∃ body rest, lines = body ++ rest ∧ owed.Fills body ∧
        readLines ⟨current, .nothing⟩ (number + body.length) rest = .ok hunks := by
  induction lines generalizing owed number with
  | nil =>
    by_cases owes : owed = .nothing
    · subst owes
      constructor
      · intro h
        exact ⟨[], [], rfl, Owed.fills_nothing_iff.2 rfl, h⟩
      · rintro ⟨body, rest, eq, -, h⟩
        obtain ⟨rfl, rfl⟩ := List.nil_eq_append_iff.1 eq
        exact h
    · rw [readLines, if_neg owes]
      constructor
      · intro h
        cases h
      · rintro ⟨body, rest, eq, fills, -⟩
        obtain ⟨rfl, rfl⟩ := List.nil_eq_append_iff.1 eq
        exact absurd fills.eq_nothing_of_nil owes
  | cons line lines ih =>
    by_cases owes : owed = .nothing
    · subst owes
      constructor
      · intro h
        exact ⟨[], line :: lines, rfl, Owed.fills_nothing_iff.2 rfl, h⟩
      · rintro ⟨body, rest, eq, fills, h⟩
        obtain rfl := Owed.fills_nothing_iff.1 fills
        exact eq ▸ h
    · -- The first line counts against what is owed, and the induction is on what it leaves.
      rw [readLines_cons_iff_of_owed owes]
      constructor
      · rintro ⟨next, taken, h⟩
        obtain ⟨body, rest, rfl, fills, h⟩ := ih.1 h
        refine ⟨line :: body, rest, rfl, Owed.fills_cons_iff.2 ⟨owes, next, taken, fills⟩, ?_⟩
        rwa [List.length_cons, ← Nat.add_assoc, Nat.add_right_comm]
      · rintro ⟨body, rest, eq, fills, h⟩
        cases body with
        | nil => exact absurd fills.eq_nothing_of_nil owes
        | cons _ body =>
          obtain ⟨rfl, rfl⟩ := List.cons_eq_cons.1 eq
          obtain ⟨-, next, taken, fills⟩ := Owed.fills_cons_iff.1 fills
          refine ⟨next, taken, ih.2 ⟨body, rest, rfl, fills, ?_⟩⟩
          rwa [List.length_cons, ← Nat.add_assoc, Nat.add_right_comm] at h

theorem Layout.readLines_eq {current : Section} {lines : List (List Char)} {pieces : List Piece}
    (h : Layout current lines pieces) (number : Nat) :
    readLines ⟨current, .nothing⟩ number lines = .ok (pieces.filterMap Piece.hunk?) := by
  induction h generalizing number with
  | done => rfl
  | leave tail ih => exact readLines_cons_iff.2 ⟨_, _, _, .leave _, ih _, rfl⟩
  | enter tail ih => exact readLines_cons_iff.2 ⟨_, _, _, .enter _, ih _, rfl⟩
  | skip idle tail ih => exact readLines_cons_iff.2 ⟨_, _, _, .skip idle, ih _, rfl⟩
  | @hunk current _ header body rest pieces inside read fills tail ih =>
    refine readLines_cons_iff.2 ⟨_, _, _, .hunk inside read,
      readLines_iff_of_owed.2 ⟨body, rest, rfl, fills, ih _⟩, ?_⟩
    have head : Piece.hunk? ⟨current, header, body⟩ = current.hunk? header := rfl
    rw [List.filterMap_cons, head]
    cases current.hunk? header <;> rfl

theorem exists_layout {current : Section} {number : Nat} {lines : List (List Char)}
    {hunks : List Hunk} (h : readLines ⟨current, .nothing⟩ number lines = .ok hunks) :
    ∃ pieces, Layout current lines pieces := by
  match lines with
  | [] => exact ⟨[], .done⟩
  | line :: lines =>
    obtain ⟨next, hunk, more, step, read, -⟩ := readLines_cons_iff.1 h
    cases step with
    | leave text =>
      obtain ⟨pieces, tail⟩ := exists_layout read
      exact ⟨pieces, .leave tail⟩
    | enter text =>
      obtain ⟨pieces, tail⟩ := exists_layout read
      exact ⟨pieces, .enter tail⟩
    | skip idle =>
      obtain ⟨pieces, tail⟩ := exists_layout read
      exact ⟨pieces, .skip idle tail⟩
    | hunk inside header =>
      -- The body is taken off in one piece, so the recursion is on the number of lines.
      obtain ⟨body, rest, rfl, fills, read⟩ := readLines_iff_of_owed.1 read
      obtain ⟨pieces, tail⟩ := exists_layout read
      exact ⟨_, .hunk inside header fills tail⟩
termination_by lines.length

/-- A diff is read when its lines have a layout, with the hunks of that layout. -/
theorem readDiff_eq_ok_iff {text : String} {hunks : List Hunk} :
    readDiff text = .ok hunks ↔
      ∃ pieces, Layout .outside (Text.lines text.toList) pieces ∧
        pieces.filterMap Piece.hunk? = hunks := by
  constructor
  · intro h
    obtain ⟨pieces, layout⟩ := exists_layout h
    exact ⟨pieces, layout, Except.ok.inj ((layout.readLines_eq 0).symm.trans h)⟩
  · rintro ⟨pieces, layout, rfl⟩
    exact layout.readLines_eq 0

/-! ## Hunks of a diff -/

/-- Whether the file of a section, if it has one, is in normal form. -/
def Section.IsNormal (current : Section) : Prop :=
  ∀ name, current = .file name → Path.normalize name = name

theorem Section.isNormal_ofNewSide (text : List Char) :
    (Section.ofNewSide (newSide? text)).IsNormal := by
  intro name eq
  unfold newSide? at eq
  by_cases gone : unquote (rawName text) = "/dev/null".toList
  · rw [if_pos gone] at eq
    cases eq
  · rw [if_neg gone] at eq
    cases eq
    exact Path.normalize_ofList_normal _

theorem Layout.isNormal {current : Section} {lines : List (List Char)} {pieces : List Piece}
    (h : Layout current lines pieces) (normal : current.IsNormal) {piece : Piece}
    (mem : piece ∈ pieces) : piece.current.IsNormal := by
  induction h with
  | done => cases mem
  | leave tail ih => exact ih (fun _ eq => nomatch eq) mem
  | enter tail ih => exact ih (Section.isNormal_ofNewSide _) mem
  | skip idle tail ih => exact ih normal mem
  | hunk inside read fills tail ih =>
    rcases List.mem_cons.1 mem with rfl | mem
    · exact normal
    · exact ih normal mem

theorem Piece.hunk?_eq_some_iff {piece : Piece} {hunk : Hunk} :
    piece.hunk? = some hunk ↔
      piece.current = .file hunk.file ∧ hunk.span = piece.header.span := by
  obtain ⟨current, header, body⟩ := piece
  obtain ⟨file, span⟩ := hunk
  unfold Piece.hunk? Section.hunk?
  cases current <;> simp [eq_comm]

theorem normal_of_readDiff {text : String} {hunks : List Hunk} (h : readDiff text = .ok hunks)
    {hunk : Hunk} (mem : hunk ∈ hunks) :
    Path.normalize hunk.file = hunk.file ∧ hunk.span.first ≤ hunk.span.last := by
  obtain ⟨pieces, layout, rfl⟩ := readDiff_eq_ok_iff.1 h
  obtain ⟨piece, hpiece, eq⟩ := List.mem_filterMap.1 mem
  obtain ⟨inFile, span⟩ := Piece.hunk?_eq_some_iff.1 eq
  have outside : Section.IsNormal .outside := fun _ eq => nomatch eq
  exact ⟨layout.isNormal outside hpiece _ inFile, span ▸ piece.header.span_first_le_last⟩

end CoChange.Hunk
