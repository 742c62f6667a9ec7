import CoChange.Proofs.Path.NormalForm
import Mathlib.Logic.Relation

/-!
# Spellings of a path

What leads nowhere may be left out of the segments of a path: an empty segment, a `.`, a name with
the `..` that takes it back, and in an absolute path a `..` at the front (`Drops`). Two paths spell
the same place when such steps, in either direction, lead from the segments of one to those of the
other. A step keeps the reduced segments (`Drops.reduce_eq`), and steps lead from any segments to
the reduced ones (`eqvGen_reduce`). So the normal form decides who spells the same place
(`normalize_canonical`).
-/

namespace CoChange.Path

open Relation (EqvGen)

/-- Segments that lead nowhere are left out. -/
inductive Drops (absolute : Bool) : List Segment → List Segment → Prop
  | blank (before after : List Segment) : Drops absolute (before ++ [] :: after) (before ++ after)
  | here (before after : List Segment) :
      Drops absolute (before ++ ['.'] :: after) (before ++ after)
  | back {name : Segment} (named : IsName name) (before after : List Segment) :
      Drops absolute (before ++ name :: up :: after) (before ++ after)
  | root (after : List Segment) (rooted : absolute = true) : Drops absolute (up :: after) after

variable {absolute : Bool} {a b kept segs : List Segment} {segment : Segment}

/-! ## Steps keep the reduced segments -/

theorem Drops.reduce_eq (h : Drops absolute a b) : reduce absolute a = reduce absolute b := by
  unfold reduce
  cases h with
  | blank before after =>
    rw [List.foldl_append, List.foldl_cons, push_of_blank (.inl rfl), List.foldl_append]
  | here before after =>
    rw [List.foldl_append, List.foldl_cons, push_of_blank (.inr rfl), List.foldl_append]
  | back named before after =>
    rw [List.foldl_append, List.foldl_cons, List.foldl_cons, push_of_isName named,
      push_up_of_ne_up named.ne_up, List.foldl_append]
  | root after rooted =>
    rw [List.foldl_cons, push_up_nil, if_pos rooted]

theorem reduce_eq_of_eqvGen (h : EqvGen (Drops absolute) a b) :
    reduce absolute a = reduce absolute b := by
  induction h with
  | rel _ _ step => exact step.reduce_eq
  | refl _ => rfl
  | symm _ _ _ ih => exact ih.symm
  | trans _ _ _ _ _ first second => exact first.trans second

/-! ## Steps lead to the reduced segments -/

/-- Putting a segment on top of others is at most one step. -/
theorem eqvGen_push (h : IsReduced absolute kept.reverse) (unslashed : '/' ∉ segment)
    (after : List Segment) :
    EqvGen (Drops absolute) (kept.reverse ++ segment :: after)
      ((push absolute kept segment).reverse ++ after) := by
  rcases segment_cases unslashed with (rfl | rfl) | rfl | name
  · rw [push_of_blank (.inl rfl)]
    exact .rel _ _ (.blank _ _)
  · rw [push_of_blank (.inr rfl)]
    exact .rel _ _ (.here _ _)
  · obtain ⟨climbs, names, eq, root, named⟩ := h
    have stack : kept = names.reverse ++ List.replicate climbs up := by
      rw [← List.reverse_reverse kept, eq, List.reverse_append, List.reverse_replicate]
    rcases List.eq_nil_or_concat names with rfl | ⟨names', last, rfl⟩
    · -- Nothing to take back: `..` joins the run at the front, or falls away at the root.
      rw [stack]
      cases absolute with
      | true =>
        obtain rfl := root rfl
        exact .rel _ _ (.root after rfl)
      | false =>
        rw [List.reverse_nil, List.nil_append, push_up_replicate, List.reverse_replicate,
          List.reverse_replicate, List.replicate_succ', List.append_assoc]
        exact .refl _
    · have hlast : IsName last := named last (by simp)
      rw [stack, List.concat_eq_append, List.reverse_concat, List.cons_append,
        push_up_of_ne_up hlast.ne_up, List.reverse_cons, List.append_assoc, List.singleton_append]
      exact .rel _ _ (.back hlast _ _)
  · rw [push_of_isName name, List.reverse_cons, List.append_assoc]
    exact .refl _

theorem eqvGen_foldl_push {more : List Segment} (h : IsReduced absolute kept.reverse)
    (unslashed : ∀ segment ∈ more, '/' ∉ segment) :
    EqvGen (Drops absolute) (kept.reverse ++ more) (more.foldl (push absolute) kept).reverse := by
  induction more generalizing kept with
  | nil =>
    rw [List.append_nil]
    exact .refl _
  | cons segment more ih =>
    obtain ⟨first, others⟩ := List.forall_mem_cons.1 unslashed
    exact .trans _ _ _ (eqvGen_push h first more) (ih (isReduced_push h first) others)

theorem eqvGen_reduce (unslashed : ∀ segment ∈ segs, '/' ∉ segment) :
    EqvGen (Drops absolute) segs (reduce absolute segs) := by
  have bottom : IsReduced absolute ([] : List Segment).reverse :=
    ⟨0, [], rfl, fun _ => rfl, by simp⟩
  exact eqvGen_foldl_push bottom unslashed

/-! ## Normal forms -/

/-- The normal form tells whether a path is absolute and its reduced segments, and no more. -/
theorem normal_eq_iff_reduce {path other : List Char} :
    normal path = normal other ↔ isAbsolute path = isAbsolute other ∧
      reduce (isAbsolute path) (segments path) = reduce (isAbsolute path) (segments other) := by
  constructor
  · intro h
    have root : isAbsolute path = isAbsolute other := by
      rw [← isAbsolute_normal path, h, isAbsolute_normal]
    refine ⟨root, ?_⟩
    calc reduce (isAbsolute path) (segments path)
        = reduce (isAbsolute path) (segments (normal path)) :=
          (reduce_segments_render (isReduced_normal path)).symm
      _ = reduce (isAbsolute path) (segments (normal other)) := by rw [h]
      _ = reduce (isAbsolute path) (segments other) := by
          rw [root]
          exact reduce_segments_render (isReduced_normal other)
  · rintro ⟨root, same⟩
    unfold normal
    rw [← root, same]

theorem normal_eq_iff {path other : List Char} :
    normal path = normal other ↔ isAbsolute path = isAbsolute other ∧
      EqvGen (Drops (isAbsolute path)) (segments path) (segments other) := by
  rw [normal_eq_iff_reduce]
  refine and_congr_right fun _ => ⟨fun same => ?_, reduce_eq_of_eqvGen⟩
  have here : EqvGen (Drops (isAbsolute path)) (segments path) _ :=
    eqvGen_reduce fun _ => unslashed_of_mem_segments
  have there : EqvGen (Drops (isAbsolute path)) (segments other) _ :=
    eqvGen_reduce fun _ => unslashed_of_mem_segments
  rw [same] at here
  exact .trans _ _ _ here (.symm _ _ there)

theorem normal_of_relative {path : List Char} (h : isAbsolute path = false) :
    normal path = ['.'] ∨ ∃ climbs names, 0 < climbs + names.length ∧
      (∀ name ∈ names, IsName name) ∧
        normal path = ['/'].intercalate (List.replicate climbs up ++ names) := by
  obtain ⟨climbs, names, eq, -, named⟩ := isReduced_normal path
  rw [h] at eq
  unfold normal render
  rw [h, eq]
  by_cases empty : List.replicate climbs up ++ names = []
  · exact .inl (if_pos empty)
  · refine .inr ⟨climbs, names, ?_, named, if_neg empty⟩
    have filled := List.length_pos_iff.2 empty
    rwa [List.length_append, List.length_replicate] at filled

theorem normal_of_absolute {path : List Char} (h : isAbsolute path = true) :
    ∃ names, (∀ name ∈ names, IsName name) ∧ normal path = '/' :: ['/'].intercalate names := by
  obtain ⟨climbs, names, eq, root, named⟩ := isReduced_normal path
  obtain rfl := root h
  rw [h, List.replicate_zero, List.nil_append] at eq
  refine ⟨names, named, ?_⟩
  unfold normal
  rw [h, eq]
  rfl

/-- **The normal form is canonical.** It is absolute when the path is. It consists of names between
slashes, behind a slash in an absolute path and behind a run of `..` in a relative one; the relative
path without any segment is `.`. Normalizing it again changes nothing. Two paths have the same normal
form exactly when both are absolute or both are relative, and leaving out and putting in what leads
nowhere turns the segments of one into those of the other. -/
theorem normalize_canonical (path : String) :
    isAbsolute (normalize path).toList = isAbsolute path.toList ∧
    (isAbsolute path.toList = true → ∃ names, (∀ name ∈ names, IsName name) ∧
      (normalize path).toList = '/' :: ['/'].intercalate names) ∧
    (isAbsolute path.toList = false → normalize path = "." ∨ ∃ climbs names,
      0 < climbs + names.length ∧ (∀ name ∈ names, IsName name) ∧
        (normalize path).toList = ['/'].intercalate (List.replicate climbs up ++ names)) ∧
    normalize (normalize path) = normalize path ∧
    ∀ other, normalize path = normalize other ↔
      isAbsolute path.toList = isAbsolute other.toList ∧
        EqvGen (Drops (isAbsolute path.toList)) (segments path.toList) (segments other.toList) := by
  simp only [toList_normalize, normalize_normalize, true_and, isAbsolute_normal]
  refine ⟨normal_of_absolute, ?_, fun other => ?_⟩
  · intro relative
    refine (normal_of_relative relative).imp_left fun here => ?_
    rw [normalize, here]
  · rw [← normal_eq_iff, ← String.toList_inj, toList_normalize, toList_normalize]

/-- Two spellings of one relative path. The first one climbs out of the directory it starts in. -/
theorem normalize_canonical_climbing :
    normalize "a/.././../b//c" = normalize "../b/./c/" ∧
    (∃ climbs names, 0 < climbs + names.length ∧ (∀ name ∈ names, IsName name) ∧
      (normalize "a/.././../b//c").toList =
        ['/'].intercalate (List.replicate climbs up ++ names)) ∧
    EqvGen (Drops false) (segments "a/.././../b//c".toList) (segments "../b/./c/".toList) := by
  have relative : isAbsolute "a/.././../b//c".toList = false := by decide +kernel
  have same : normalize "a/.././../b//c" = normalize "../b/./c/" := by decide +kernel
  have filled : normalize "a/.././../b//c" ≠ "." := by decide +kernel
  obtain ⟨-, -, shape, -, spells⟩ := normalize_canonical "a/.././../b//c"
  have steps := ((spells "../b/./c/").1 same).2
  rw [relative] at steps
  exact ⟨same, (shape relative).resolve_left filled, steps⟩

end CoChange.Path
