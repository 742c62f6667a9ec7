import CoChange.Proofs.Hunk.Layout
import CoChange.Proofs.Rule.Pairs

/-!
# Edits inside guarded blocks

A body says line by line what was added and where something was removed, while the span of a hunk
comes from its header alone. The lines of a body that count for the new side are numbered from the
start that the header gives, so every edit lies within the span (`Touches.meets`). A rule with an
added line among its lines, or with lines removed from between them, is therefore present
(`present_of_meets`).
-/

namespace CoChange.Hunk

namespace Piece

/-- The number of the last line on the new side before a place in the body. A header with lines on
the new side gives the first of them, another one the line before the hunk. -/
def above (piece : Piece) (before : List (List Char)) : Int :=
  (if piece.header.newCount = 0 then (piece.header.newStart : Int)
    else piece.header.newStart - 1) + before.countP countsNew

/-- A span has an added line of the body, or lines on both sides of a removed one. -/
inductive Touches (piece : Piece) (span : Span) : Prop
  | added {before after : List (List Char)} {line : List Char}
      (cut : piece.body = before ++ line :: after) (mark : isAdded line = true)
      (low : span.first ≤ piece.above before + 1) (high : piece.above before + 1 ≤ span.last)
  | removed {before after : List (List Char)} {line : List Char}
      (cut : piece.body = before ++ line :: after) (mark : isRemoved line = true)
      (low : span.first ≤ piece.above before) (high : piece.above before < span.last)

/-- A header with a body that fills what it announces. -/
def IsFilled (piece : Piece) : Prop :=
  Owed.Fills ⟨piece.header.oldCount, piece.header.newCount⟩ piece.body

variable {piece : Piece} {before after : List (List Char)} {line : List Char}

theorem IsFilled.countP_le (h : piece.IsFilled) (cut : piece.body = before ++ line :: after) :
    before.countP countsNew + (countsNew line).toNat ≤ piece.header.newCount := by
  have new : piece.body.countP countsNew = piece.header.newCount := h.new
  rw [cut, List.countP_append, List.countP_cons] at new
  cases marked : countsNew line with
  | false =>
    rw [Bool.toNat_false]
    omega
  | true =>
    rw [marked, if_pos rfl] at new
    rw [Bool.toNat_true]
    omega

theorem IsFilled.added_mem (h : piece.IsFilled) (cut : piece.body = before ++ line :: after)
    (mark : isAdded line = true) :
    piece.header.span.first ≤ piece.above before + 1 ∧
      piece.above before + 1 ≤ piece.header.span.last := by
  have counted := h.countP_le cut
  have counts : countsNew line = true := by rw [countsNew, mark, Bool.or_true]
  rw [counts, Bool.toNat_true] at counted
  have filled : piece.header.newCount ≠ 0 := by omega
  unfold above Header.span
  rw [if_neg filled, if_neg filled]
  constructor <;> dsimp only <;> omega

/-- The lines around a removed line reach the span of the header. -/
theorem IsFilled.removed_near (h : piece.IsFilled) (cut : piece.body = before ++ line :: after) :
    piece.header.span.first ≤ max (piece.above before + 1) 1 ∧
      piece.above before ≤ piece.header.span.last := by
  have counted := h.countP_le cut
  unfold above Header.span
  by_cases empty : piece.header.newCount = 0
  · -- The header gives the line above the gap, 0 at the start of the file, and is pinned to 1 then.
    rw [if_pos empty, if_pos empty]
    constructor <;> dsimp only <;> omega
  · rw [if_neg empty, if_neg empty]
    constructor <;> dsimp only <;> omega

theorem Touches.first_le_last {span : Span} (h : piece.Touches span) : span.first ≤ span.last := by
  cases h with
  | added _ _ low high => omega
  | removed _ _ low high => omega

/-- Edits are within reach of the header: a span that an edit touches shares a line with it. -/
theorem Touches.meets {span : Span} (h : piece.IsFilled) (touches : piece.Touches span) :
    piece.header.span.meets span = true := by
  rw [Span.meets, Bool.and_eq_true, decide_eq_true_eq, decide_eq_true_eq]
  cases touches with
  | added cut mark low high =>
    obtain ⟨first, last⟩ := h.added_mem cut mark
    omega
  | removed cut mark low high =>
    obtain ⟨first, last⟩ := h.removed_near cut
    omega

end Piece

theorem Layout.isFilled {current : Section} {lines : List (List Char)} {pieces : List Piece}
    (h : Layout current lines pieces) {piece : Piece} (mem : piece ∈ pieces) : piece.IsFilled := by
  induction h with
  | done => cases mem
  | leave tail ih => exact ih mem
  | enter tail ih => exact ih mem
  | skip idle tail ih => exact ih mem
  | hunk inside read fills tail ih =>
    rcases List.mem_cons.1 mem with rfl | mem
    · exact fills
    · exact ih mem

theorem present_of_meets {hunks : List Hunk} {hunk : Hunk} (mem : hunk ∈ hunks)
    {directives : List Directive} {rules : List Rule}
    (made : Rule.ofDirectives hunk.file ((Changes.ofHunks hunks).spansOf hunk.file) directives =
      .ok rules) {rule : Rule} (listed : rule ∈ rules) (meets : hunk.span.meets rule.span = true) :
    rule.present = true := by
  rw [(Rule.ofDirectives_eq_ok_iff.1 made).present_eq listed, Changes.spansOf_ofHunks,
    List.any_eq_true]
  refine ⟨hunk.span, List.mem_map_of_mem ?_, meets⟩
  exact List.mem_filter.2 ⟨mem, decide_eq_true rfl⟩

/-- **Edits count.** In a diff that can be read, an edit inside the lines of a rule makes the rule
present: wherever the body of a hunk adds a line to a span, or removes one from between its lines,
the hunk recorded for the header shares a line with the span. -/
theorem present_of_touches {text : String} {hunks : List Hunk} (read : readDiff text = .ok hunks) :
    (∃ pieces, Layout .outside (Text.lines text.toList) pieces) ∧
    ∀ pieces, Layout .outside (Text.lines text.toList) pieces →
      hunks = pieces.filterMap Piece.hunk? ∧
      ∀ piece ∈ pieces, ∀ file, piece.current = .file file →
        piece.hunk? = some ⟨file, piece.header.span⟩ ∧
        ∀ span, piece.Touches span →
          (∃ line ∈ piece.header.span, line ∈ span) ∧
          ∀ directives rules,
            Rule.ofDirectives file ((Changes.ofHunks hunks).spansOf file) directives = .ok rules →
              ∀ rule ∈ rules, rule.span = span → rule.present = true := by
  obtain ⟨found, layout, -⟩ := readDiff_eq_ok_iff.1 read
  refine ⟨⟨found, layout⟩, fun pieces layout => ?_⟩
  have same : pieces.filterMap Piece.hunk? = hunks :=
    Except.ok.inj ((readDiff_eq_ok_iff.2 ⟨pieces, layout, rfl⟩).symm.trans read)
  refine ⟨same.symm, fun piece mem file inFile => ?_⟩
  have recorded : piece.hunk? = some ⟨file, piece.header.span⟩ :=
    Piece.hunk?_eq_some_iff.2 ⟨inFile, rfl⟩
  refine ⟨recorded, fun span touches => ?_⟩
  have meets := touches.meets (layout.isFilled mem)
  have listed : (⟨file, piece.header.span⟩ : Hunk) ∈ hunks :=
    same ▸ List.mem_filterMap.2 ⟨piece, mem, recorded⟩
  refine ⟨?_, fun directives rules made rule inRules eq => ?_⟩
  · exact (Span.meets_iff_exists piece.header.span_first_le_last touches.first_le_last).1 meets
  · subst eq
    exact present_of_meets listed made inRules meets

/-- A header without lines on the new side, and the one line that it removes. -/
def removal : Piece := ⟨.file "f", ⟨1, 1, 0⟩, ["-x".toList]⟩

theorem layout_removal :
    Layout .outside (Text.lines "+++ b/f\n@@ -2 +1,0 @@\n-x\n".toList) [removal] := by
  have lines : Text.lines "+++ b/f\n@@ -2 +1,0 @@\n-x\n".toList =
      ("+++ ".toList ++ "b/f".toList) :: "@@ -2 +1,0 @@".toList :: (["-x".toList] ++ []) := by
    decide
  have named : Section.ofNewSide (newSide? "b/f".toList) = .file "f" := by decide +kernel
  have header : Header.read "@@ -2 +1,0 @@".toList = .ok ⟨1, 1, 0⟩ :=
    Outcome.eq_ok_of_toOption (by decide +kernel)
  have fills : Owed.Fills ⟨1, 0⟩ ["-x".toList] := by
    refine ⟨by decide, by decide, by decide, fun line last => ?_⟩
    cases last
    decide
  rw [lines]
  refine .enter ?_
  rw [named]
  exact .hunk (by decide) header fills .done

/-- A line that was removed from between the two lines of a rule makes it present. -/
theorem present_of_removal :
    readDiff "+++ b/f\n@@ -2 +1,0 @@\n-x\n" = .ok [⟨"f", ⟨1, 1⟩⟩] ∧ removal.Touches ⟨1, 2⟩ ∧
      ∀ directives rules,
        Rule.ofDirectives "f" ((Changes.ofHunks [⟨"f", ⟨1, 1⟩⟩]).spansOf "f") directives =
          .ok rules → ∀ rule ∈ rules, rule.span = ⟨1, 2⟩ → rule.present = true := by
  have read : readDiff "+++ b/f\n@@ -2 +1,0 @@\n-x\n" = .ok [⟨"f", ⟨1, 1⟩⟩] :=
    layout_removal.readLines_eq 0
  have touches : removal.Touches ⟨1, 2⟩ := by
    have cut : removal.body = [] ++ "-x".toList :: [] := rfl
    refine .removed cut ?_ ?_ ?_ <;> decide
  refine ⟨read, touches, ?_⟩
  obtain ⟨-, all⟩ := present_of_touches read
  obtain ⟨-, edits⟩ := all [removal] layout_removal
  exact ((edits removal List.mem_cons_self "f" rfl).2 ⟨1, 2⟩ touches).2

end CoChange.Hunk
