import CoChange.Proofs.Hunk.Heading
import CoChange.Proofs.Hunk.Layout

/-!
# The grammar of diffs

A diff is a row of lines of five kinds, read with a current section that is none at first: lines
that leave the section, lines that name a file that is gone or one that is there, lines that do not
matter, and headers, each with the body that it announces (`Derives`). A header of a file that is
there gives a hunk: the lines on the new side, or if the hunk leaves none the line that it follows.
The grammar is told without the reader, and the reader follows it: a diff can be read exactly when
its lines derive hunks, and gives these hunks (`readDiff_eq_ok_iff_derives`).
-/

namespace CoChange.Hunk

/-- The lines that may follow in a section, and the hunks that they hold. -/
inductive Derives : Section → List (List Char) → List Hunk → Prop
  | nil {current : Section} : Derives current [] []
  | leave {current : Section} {line : List Char} {rest : List (List Char)} {hunks : List Hunk}
      (mark : "diff ".toList <+: line) (tail : Derives .outside rest hunks) :
      Derives current (line :: rest) hunks
  | delete {current : Section} {name : List Char} {rest : List (List Char)} {hunks : List Hunk}
      (gone : unquote (rawName name) = "/dev/null".toList) (tail : Derives .gone rest hunks) :
      Derives current (("+++ ".toList ++ name) :: rest) hunks
  | enter {current : Section} {name : List Char} {file : String} {rest : List (List Char)}
      {hunks : List Hunk} (named : newSide? name = some file)
      (tail : Derives (.file file) rest hunks) :
      Derives current (("+++ ".toList ++ name) :: rest) hunks
  | skip {current : Section} {line : List Char} {rest : List (List Char)} {hunks : List Hunk}
      (idle : IsIdle line) (tail : Derives current rest hunks) :
      Derives current (line :: rest) hunks
  | hunk {file : String} {line : List Char} {header : Header} {body rest : List (List Char)}
      {hunks : List Hunk} (heads : header.Heads line)
      (fills : Owed.Fills ⟨header.oldCount, header.newCount⟩ body)
      (lasting : header.newCount ≠ 0) (tail : Derives (.file file) rest hunks) :
      Derives (.file file) (line :: (body ++ rest))
        (⟨file, ⟨header.newStart, header.newStart + header.newCount - 1⟩⟩ :: hunks)
  | removal {file : String} {line : List Char} {header : Header} {body rest : List (List Char)}
      {hunks : List Hunk} (heads : header.Heads line)
      (fills : Owed.Fills ⟨header.oldCount, header.newCount⟩ body)
      (bare : header.newCount = 0) (tail : Derives (.file file) rest hunks) :
      Derives (.file file) (line :: (body ++ rest))
        (⟨file, ⟨max header.newStart 1, max header.newStart 1⟩⟩ :: hunks)
  | pass {line : List Char} {header : Header} {body rest : List (List Char)} {hunks : List Hunk}
      (heads : header.Heads line)
      (fills : Owed.Fills ⟨header.oldCount, header.newCount⟩ body)
      (tail : Derives .gone rest hunks) :
      Derives .gone (line :: (body ++ rest)) hunks

variable {current : Section} {lines : List (List Char)} {hunks : List Hunk} {header : Header}

theorem Header.span_of_ne_zero (h : header.newCount ≠ 0) :
    header.span = ⟨header.newStart, header.newStart + header.newCount - 1⟩ := by
  rw [Header.span, if_neg h, Nat.add_sub_assoc (Nat.pos_of_ne_zero h)]

theorem Header.span_of_eq_zero (h : header.newCount = 0) :
    header.span = ⟨max header.newStart 1, max header.newStart 1⟩ := if_pos h

theorem newSide?_eq_none_iff {name : List Char} :
    newSide? name = none ↔ unquote (rawName name) = "/dev/null".toList := by
  unfold newSide?
  dsimp only
  split
  · next gone => exact iff_of_true rfl gone
  · next there => exact iff_of_false (fun eq => nomatch eq) there

theorem Layout.derives {pieces : List Piece} (h : Layout current lines pieces) :
    Derives current lines (pieces.filterMap Piece.hunk?) := by
  induction h with
  | done => exact .nil
  | leave tail ih => exact .leave (List.prefix_append _ _) ih
  | @enter _ name _ _ tail ih =>
    cases named : newSide? name with
    | none =>
      rw [named] at ih
      exact .delete (newSide?_eq_none_iff.1 named) ih
    | some file =>
      rw [named] at ih
      exact .enter named ih
  | skip idle tail ih => exact .skip idle ih
  | @hunk current _ header body _ _ inside read fills tail ih =>
    have heads := Header.read_eq_ok_iff.1 read
    cases current with
    | outside => exact absurd rfl inside
    | gone => exact .pass heads fills ih
    | file name =>
      show Derives (.file name) _ (⟨name, header.span⟩ :: _)
      by_cases bare : header.newCount = 0
      · rw [Header.span_of_eq_zero bare]
        exact .removal heads fills bare ih
      · rw [Header.span_of_ne_zero bare]
        exact .hunk heads fills bare ih

theorem Derives.exists_layout (h : Derives current lines hunks) :
    ∃ pieces, Layout current lines pieces ∧ pieces.filterMap Piece.hunk? = hunks := by
  induction h with
  | nil => exact ⟨[], .done, rfl⟩
  | leave mark tail ih =>
    obtain ⟨pieces, layout, rfl⟩ := ih
    obtain ⟨text, rfl⟩ := mark
    exact ⟨pieces, .leave layout, rfl⟩
  | delete gone tail ih =>
    obtain ⟨pieces, layout, rfl⟩ := ih
    refine ⟨pieces, .enter ?_, rfl⟩
    rwa [newSide?_eq_none_iff.2 gone]
  | enter named tail ih =>
    obtain ⟨pieces, layout, rfl⟩ := ih
    refine ⟨pieces, .enter ?_, rfl⟩
    rwa [named]
  | skip idle tail ih =>
    obtain ⟨pieces, layout, rfl⟩ := ih
    exact ⟨pieces, .skip idle layout, rfl⟩
  | hunk heads fills lasting tail ih =>
    obtain ⟨pieces, layout, rfl⟩ := ih
    refine ⟨_, .hunk (fun eq => nomatch eq) (Header.read_eq_ok_iff.2 heads) fills layout, ?_⟩
    rw [← Header.span_of_ne_zero lasting]
    rfl
  | removal heads fills bare tail ih =>
    obtain ⟨pieces, layout, rfl⟩ := ih
    refine ⟨_, .hunk (fun eq => nomatch eq) (Header.read_eq_ok_iff.2 heads) fills layout, ?_⟩
    rw [← Header.span_of_eq_zero bare]
    rfl
  | pass heads fills tail ih =>
    obtain ⟨pieces, layout, rfl⟩ := ih
    exact ⟨_, .hunk (fun eq => nomatch eq) (Header.read_eq_ok_iff.2 heads) fills layout, rfl⟩

/-- **Grammar.** A diff can be read exactly when its lines follow the grammar, and its hunks are
those that the grammar gives. -/
theorem readDiff_eq_ok_iff_derives (text : String) (hunks : List Hunk) :
    readDiff text = .ok hunks ↔ Derives .outside (Text.lines text.toList) hunks := by
  rw [readDiff_eq_ok_iff]
  constructor
  · rintro ⟨pieces, layout, rfl⟩
    exact layout.derives
  · exact Derives.exists_layout

end CoChange.Hunk
