import CoChange.Proofs.Rule.Origin
import Mathlib.Data.List.Lex
import Mathlib.Data.String.Basic

/-!
# Paths below another directory

A path is moved below a directory by writing the directory and a slash in front of it (`under`).
Segments that never climb past the start are reduced to the same behind the names of a directory as
without them (`reduce_append_of_stays`). So moving a path commutes with normalizing it
(`normalize_under`) and with following a specifier that is relative to it (`resolve_under`), as long
as the paths that come out stay inside the directory where they start. The extension is that of the
last name, and so it stays as well (`extension?_under`).
-/

namespace CoChange.Path

/-- A path in normal form that is relative and does not climb. -/
structure IsInner (path : String) : Prop where
  isNormal : normalize path = path
  relative : isAbsolute path.toList = false
  stays : (segments path.toList).head? ≠ some up

instance : DecidablePred IsInner := fun path =>
  decidable_of_iff (normalize path = path ∧ isAbsolute path.toList = false ∧
      (segments path.toList).head? ≠ some up)
    ⟨fun ⟨isNormal, relative, stays⟩ => ⟨isNormal, relative, stays⟩, fun h => ⟨h.1, h.2, h.3⟩⟩

/-- The path that leads to `path` from outside of `directory`. -/
def under (directory path : String) : String := directory ++ "/" ++ path

variable {directory path origin spec : String} {segs : List Segment}

/-! ## One path behind another -/

@[simp] theorem toList_under (directory path : String) :
    (under directory path).toList = directory.toList ++ '/' :: path.toList := by
  simp [under]

@[simp] theorem under_inj {a b : String} : under directory a = under directory b ↔ a = b :=
  String.append_right_inj _

theorem under_lt_under {a b : String} (h : a < b) : under directory a < under directory b := by
  rw [String.lt_iff_toList_lt] at h ⊢
  rw [toList_under, toList_under]
  exact List.append_left_lt (List.cons_lt_cons_iff.2 (.inr ⟨rfl, h⟩))

theorem render_segments (path : List Char) : render false (segments path) = path := by
  have some : segments path ≠ [] := List.splitOn_ne_nil '/' path
  have joined : ['/'].intercalate (segments path) = path := List.intercalate_splitOn '/'
  simp [render, some, joined]

theorem render_append {a b : List Segment} (ha : a ≠ []) (hb : b ≠ []) :
    render false (a ++ b) = render false a ++ '/' :: render false b := by
  have joined : ['/'].intercalate (a ++ b) =
      ['/'].intercalate a ++ '/' :: ['/'].intercalate b := by
    induction a with
    | nil => exact absurd rfl ha
    | cons first rest ih =>
      cases rest with
      | nil =>
        obtain ⟨next, more, rfl⟩ := List.exists_cons_of_ne_nil hb
        simp [List.intercalate_cons_cons]
      | cons second rest =>
        have later := ih (List.cons_ne_nil _ _)
        rw [List.cons_append] at later
        rw [List.cons_append, List.cons_append, List.intercalate_cons_cons, later,
          List.intercalate_cons_cons]
        simp
  simp [render, ha, hb, joined]

/-! ## Paths that stay inside -/

theorem IsReduced.up_not_mem (h : IsReduced false segs) (stays : segs.head? ≠ some up) :
    up ∉ segs := by
  obtain ⟨climbs, names, rfl, -, named⟩ := h
  cases climbs with
  | zero => exact fun mem => (named up (by simpa using mem)).ne_up rfl
  | succ climbs => exact absurd (by simp [List.replicate_succ]) stays

/-- What the segments of a path are reduced to, if this leads to somewhere inside. -/
theorem IsInner.of_render (inner : IsInner path) (ne : path ≠ ".")
    (unslashed : ∀ segment ∈ segs, '/' ∉ segment)
    (eq : path.toList = render false (reduce false segs)) :
    reduce false segs ≠ [] ∧ up ∉ reduce false segs := by
  have shape : IsReduced false (reduce false segs) := isReduced_reduce unslashed
  have filled : reduce false segs ≠ [] := by
    intro empty
    rw [empty] at eq
    exact ne (String.toList_inj.1 eq)
  refine ⟨filled, shape.up_not_mem ?_⟩
  have stays := inner.stays
  rw [eq, segments_render shape filled] at stays
  exact stays

theorem IsInner.toList_eq_render (inner : IsInner path) :
    path.toList = render false (reduce false (segments path.toList)) := by
  have same : (normalize path).toList = path.toList := congrArg _ inner.isNormal
  rw [toList_normalize, normal, inner.relative] at same
  exact same.symm

theorem IsInner.isName (inner : IsInner path) (ne : path ≠ ".") {segment : Segment}
    (mem : segment ∈ segments path.toList) : IsName segment := by
  have unslashed : ∀ s ∈ segments path.toList, '/' ∉ s := fun _ => unslashed_of_mem_segments
  have shape : IsReduced false (reduce false (segments path.toList)) := isReduced_reduce unslashed
  obtain ⟨filled, stays⟩ := inner.of_render ne unslashed inner.toList_eq_render
  have same := segments_render shape filled
  rw [← inner.toList_eq_render] at same
  rw [same] at mem
  obtain ⟨climbs, names, eq, -, named⟩ := shape
  rw [if_neg Bool.false_ne_true, List.nil_append, eq] at mem
  rw [eq] at stays
  rcases List.mem_append.1 mem with climb | name
  · exact absurd (List.mem_append_left _ (List.eq_of_mem_replicate climb ▸ climb)) stays
  · exact named segment name

/-! ## Segments behind names -/

/-- What climbs past the start is never taken back. -/
theorem up_mem_push {kept : List Segment} (mem : up ∈ kept) (segment : Segment) :
    up ∈ push false kept segment := by
  unfold push
  split
  · exact mem
  · split
    · cases kept with
      | nil => cases mem
      | cons top below =>
        dsimp only
        split
        · next ne => exact (List.mem_cons.1 mem).resolve_left fun eq => ne eq.symm
        · next climbs => exact List.mem_cons_of_mem _ mem
    · exact List.mem_cons_of_mem _ mem

theorem up_mem_foldl_push {kept : List Segment} (mem : up ∈ kept) (segs : List Segment) :
    up ∈ segs.foldl (push false) kept := by
  induction segs generalizing kept with
  | nil => exact mem
  | cons segment segs ih => exact ih (up_mem_push mem segment)

/-- Segments that never climb past what is kept leave alone what lies below. -/
theorem foldl_push_append {kept : List Segment} (stays : up ∉ segs.foldl (push false) kept)
    (below : List Segment) :
    segs.foldl (push false) (kept ++ below) = segs.foldl (push false) kept ++ below := by
  induction segs generalizing kept with
  | nil => rfl
  | cons segment segs ih =>
    rw [List.foldl_cons] at stays
    have step : push false (kept ++ below) segment = push false kept segment ++ below := by
      have here : up ∉ push false kept segment := fun mem => stays (up_mem_foldl_push mem segs)
      have before : up ∉ kept := fun mem => here (up_mem_push mem segment)
      by_cases climb : segment = up
      · subst climb
        cases kept with
        | nil => exact absurd (by simp) here
        | cons top kept =>
          have name : top ≠ up := fun eq => before (by simp [eq])
          rw [List.cons_append, push_up_of_ne_up name, push_up_of_ne_up name]
      · unfold push
        rw [if_neg climb, if_neg climb]
        split <;> rfl
    rw [List.foldl_cons, step, ih stays, List.foldl_cons]

/-- Behind names, segments that stay inside are reduced to the same as without them. -/
theorem reduce_append_of_stays {names : List Segment} (named : ∀ name ∈ names, IsName name)
    (stays : up ∉ reduce false segs) :
    reduce false (names ++ segs) = names ++ reduce false segs := by
  unfold reduce at stays ⊢
  rw [List.mem_reverse] at stays
  have below := foldl_push_append stays names.reverse
  rw [List.nil_append] at below
  rw [List.foldl_append, foldl_push_names [] named, List.append_nil, below, List.reverse_append,
    List.reverse_reverse]

/-! ## Moving a path -/

section

variable (inner : IsInner directory) (ne : directory ≠ ".")
include inner ne

theorem isAbsolute_under : isAbsolute (under directory path).toList = false := by
  have relative := inner.relative
  have filled : directory.toList ≠ [] := by
    intro empty
    have named : IsName [] := inner.isName ne (by rw [empty]; exact List.mem_singleton_self _)
    exact named.ne_nil rfl
  obtain ⟨c, rest, eq⟩ := List.exists_cons_of_ne_nil filled
  rw [toList_under]
  rw [eq] at relative ⊢
  exact relative

theorem render_reduce_segments (unslashed : ∀ segment ∈ segs, '/' ∉ segment)
    (innerPath : IsInner path) (nePath : path ≠ ".")
    (eq : path.toList = render false (reduce false segs)) :
    render false (reduce false (segments directory.toList ++ segs)) =
      (under directory path).toList := by
  obtain ⟨filled, stays⟩ := innerPath.of_render nePath unslashed eq
  have some : segments directory.toList ≠ [] := List.splitOn_ne_nil '/' _
  rw [reduce_append_of_stays (fun _ => inner.isName ne) stays, render_append some filled,
    render_segments, ← eq, toList_under]

theorem normalize_under (innerPath : IsInner (normalize path)) (nePath : normalize path ≠ ".") :
    normalize (under directory path) = under directory (normalize path) := by
  have relative : isAbsolute path.toList = false := by
    have same := innerPath.relative
    rwa [toList_normalize, isAbsolute_normal] at same
  have eq : (normalize path).toList = render false (reduce false (segments path.toList)) := by
    rw [toList_normalize, normal, relative]
  rw [← String.toList_inj, toList_normalize, normal, isAbsolute_under inner ne, toList_under,
    segments_append_slash]
  exact render_reduce_segments inner ne (fun _ => unslashed_of_mem_segments) innerPath nePath eq

/-- A path that leads back to the start is moved to the directory. -/
theorem normalize_under_dot (dot : normalize path = ".") :
    normalize (under directory path) = directory := by
  have eq : normal path.toList = ['.'] := by
    rw [← toList_normalize, dot]
    rfl
  have relative : isAbsolute path.toList = false := by
    rw [← isAbsolute_normal, eq]
    rfl
  have empty : reduce false (segments path.toList) = [] := by
    by_contra filled
    have shape := isReduced_normal path.toList
    unfold normal at eq
    rw [relative] at shape eq
    have same : reduce false (segments path.toList) = [['.']] := by
      have read := segments_render shape filled
      rw [eq] at read
      exact read.symm
    -- A single dot is no segment of a normal form.
    have twice := reduce_of_isReduced shape
    rw [same] at twice
    exact absurd twice (by decide)
  rw [← String.toList_inj, toList_normalize, normal, isAbsolute_under inner ne, toList_under,
    segments_append_slash, reduce_append_of_stays (fun _ => inner.isName ne) (by simp [empty]),
    empty, List.append_nil, render_segments]

/-- A specifier that is relative to a file leads from the moved file to what it names, moved. -/
theorem resolve_under (relative : isAbsolute origin.toList = false)
    (here : isLocal spec.toList = true) (innerPath : IsInner (resolve spec origin))
    (nePath : resolve spec origin ≠ ".") :
    resolve spec (under directory origin) = under directory (resolve spec origin) := by
  have eq := resolve_of_isLocal here origin
  rw [relative] at eq
  have some : segments origin.toList ≠ [] := List.splitOn_ne_nil '/' _
  rw [← String.toList_inj, resolve_of_isLocal here, isAbsolute_under inner ne, toList_under,
    segments_append_slash, List.dropLast_append_of_ne_nil some, List.append_assoc]
  refine render_reduce_segments inner ne (fun segment mem => ?_) innerPath nePath eq
  rcases List.mem_append.1 mem with mem | mem
  · exact unslashed_of_mem_segments ((List.dropLast_sublist _).mem mem)
  · exact unslashed_of_mem_segments mem

end

theorem extension?_under (inner : IsInner path) (ne : path ≠ ".") :
    extension? (under directory path) = extension? path := by
  have last : lastName? (under directory path).toList = lastName? path.toList := by
    have all : (segments path.toList).filter (fun s => s ≠ [] ∧ s ≠ ['.']) =
        segments path.toList := by
      refine List.filter_eq_self.2 fun segment mem => ?_
      have name := inner.isName ne mem
      exact decide_eq_true ⟨name.ne_nil, name.ne_dot⟩
    have some : segments path.toList ≠ [] := List.splitOn_ne_nil '/' _
    unfold lastName?
    rw [toList_under, segments_append_slash, List.filter_append, all,
      List.getLast?_append_of_ne_nil _ some]
  unfold extension?
  rw [last]

end CoChange.Path
