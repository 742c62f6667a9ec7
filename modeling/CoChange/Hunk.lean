import CoChange.Catalog
import CoChange.Span

/-!
# Hunks

A hunk is a changed span on the new side of a file. The hunks of a diff are grouped by file, and
the spans of a file keep their order.
-/

namespace CoChange

/-- A changed span of a file. -/
structure Hunk where
  file : String
  span : Span
deriving DecidableEq, Repr

/-- The changed spans of each file. -/
abbrev Changes := Catalog (List Span)

namespace Changes

/-- One more hunk, before those of its file. -/
def add (hunk : Hunk) (changes : Changes) : Changes :=
  changes.update hunk.file fun spans => hunk.span :: spans.getD []

/-- The changes that hunks make up. -/
def ofHunks (hunks : List Hunk) : Changes := hunks.foldr add .empty

/-- The changed spans of a file, none for a file that did not change. -/
def spansOf (changes : Changes) (file : String) : List Span := (changes.get? file).getD []

theorem spansOf_add (changes : Changes) (hunk : Hunk) (file : String) :
    (add hunk changes).spansOf file =
      if file = hunk.file then hunk.span :: changes.spansOf file else changes.spansOf file := by
  unfold spansOf add
  rw [Catalog.get?_update]
  split
  · next h => simp [h]
  · rfl

theorem spansOf_ofHunks (hunks : List Hunk) (file : String) :
    (ofHunks hunks).spansOf file = (hunks.filter (·.file = file)).map (·.span) := by
  induction hunks with
  | nil => rfl
  | cons hunk rest ih =>
    change (add hunk (ofHunks rest)).spansOf file = _
    rw [spansOf_add, ih]
    by_cases h : file = hunk.file <;> simp [h, eq_comm]

end Changes

end CoChange
