import CoChange.Path

/-!
# Normal forms of paths

The segments of a normal form are a run of `..` followed by names, and an absolute path has no
such run. Putting segments on top of one another keeps this shape (`isReduced_push`), and segments
of this shape are left as they are (`reduce_of_isReduced`). So normalizing twice is normalizing
once, and every file that a specifier names is in normal form.
-/

namespace CoChange.Path

/-- The segment that leads to the directory above. -/
abbrev up : Segment := ['.', '.']

/-- A segment that names something in a directory. -/
structure IsName (segment : Segment) : Prop where
  ne_nil : segment ≠ []
  ne_dot : segment ≠ ['.']
  ne_up : segment ≠ up
  unslashed : '/' ∉ segment

/-- The shape of the segments of a normal form. -/
def IsReduced (absolute : Bool) (segments : List Segment) : Prop :=
  ∃ climbs names, segments = List.replicate climbs up ++ names ∧
    (absolute = true → climbs = 0) ∧ ∀ name ∈ names, IsName name

/-! ## Segments of a text -/

theorem unslashed_of_mem_segments {path : List Char} {segment : Segment}
    (h : segment ∈ segments path) : '/' ∉ segment := by
  unfold segments at h
  induction path generalizing segment with
  | nil => simp_all
  | cons c rest ih =>
    rw [List.splitOn_cons_eq_if_modifyHead] at h
    split at h
    · rcases List.mem_cons.1 h with rfl | h
      · exact List.not_mem_nil
      · exact ih h
    · next ne =>
      obtain ⟨first, more, eq⟩ := List.exists_cons_of_ne_nil (List.splitOn_ne_nil '/' rest)
      rw [eq] at h ih
      rcases List.mem_cons.1 h with rfl | h
      · have plain := ih List.mem_cons_self
        exact fun slash => (List.mem_cons.1 slash).elim (fun eq => ne (by simp [← eq])) plain
      · exact ih (List.mem_cons_of_mem _ h)

theorem segment_cases {segment : Segment} (h : '/' ∉ segment) :
    (segment = [] ∨ segment = ['.']) ∨ segment = up ∨ IsName segment := by
  by_cases empty : segment = []
  · exact .inl (.inl empty)
  by_cases dot : segment = ['.']
  · exact .inl (.inr dot)
  by_cases climb : segment = up
  · exact .inr (.inl climb)
  · exact .inr (.inr ⟨empty, dot, climb, h⟩)

/-! ## One segment on top of others -/

theorem push_of_blank {segment : Segment} (h : segment = [] ∨ segment = ['.']) (absolute : Bool)
    (kept : List Segment) : push absolute kept segment = kept := by
  unfold push; rw [if_pos h]

theorem push_of_isName {segment : Segment} (h : IsName segment) (absolute : Bool)
    (kept : List Segment) : push absolute kept segment = segment :: kept := by
  unfold push; rw [if_neg (not_or.2 ⟨h.ne_nil, h.ne_dot⟩), if_neg h.ne_up]

theorem push_up_of_ne_up {top : Segment} (h : top ≠ up) (absolute : Bool) (below : List Segment) :
    push absolute (top :: below) up = below := by
  simp [push, h]

@[simp] theorem push_up_nil (absolute : Bool) :
    push absolute [] up = if absolute then [] else [up] := by
  simp [push]

theorem push_up_replicate (climbs : Nat) :
    push false (List.replicate climbs up) up = List.replicate (climbs + 1) up := by
  cases climbs with
  | zero => rfl
  | succ climbs => simp [push, List.replicate_succ]

theorem isReduced_push {absolute : Bool} {kept : List Segment} {segment : Segment}
    (h : IsReduced absolute kept.reverse) (unslashed : '/' ∉ segment) :
    IsReduced absolute (push absolute kept segment).reverse := by
  obtain ⟨climbs, names, eq, root, named⟩ := h
  have stack : kept = names.reverse ++ List.replicate climbs up := by
    rw [← List.reverse_reverse kept, eq, List.reverse_append, List.reverse_replicate]
  rcases segment_cases unslashed with blank | rfl | name
  · rw [push_of_blank blank]
    exact ⟨climbs, names, eq, root, named⟩
  · -- `..` takes back the last name, or joins the run at the front
    rcases List.eq_nil_or_concat names with rfl | ⟨names', last, rfl⟩
    · rw [stack]
      cases absolute with
      | true =>
        obtain rfl := root rfl
        exact ⟨0, [], by simp, fun _ => rfl, by simp⟩
      | false =>
        rw [List.reverse_nil, List.nil_append, push_up_replicate]
        exact ⟨climbs + 1, [], by simp [List.reverse_replicate], by simp, by simp⟩
    · have hlast : IsName last := named last (by simp)
      rw [stack, List.concat_eq_append, List.reverse_concat, List.cons_append,
        push_up_of_ne_up hlast.ne_up]
      refine ⟨climbs, names', by simp [List.reverse_replicate], root, fun name hname => ?_⟩
      exact named name (by simp [hname])
  · rw [push_of_isName name, List.reverse_cons, eq, List.append_assoc]
    refine ⟨climbs, names ++ [segment], rfl, root, fun other hother => ?_⟩
    rcases List.mem_append.1 hother with hother | hother
    · exact named other hother
    · rw [List.mem_singleton.1 hother]
      exact name

/-! ## All segments -/

theorem isReduced_foldl_push {absolute : Bool} {kept more : List Segment}
    (h : IsReduced absolute kept.reverse) (unslashed : ∀ segment ∈ more, '/' ∉ segment) :
    IsReduced absolute (more.foldl (push absolute) kept).reverse := by
  induction more generalizing kept with
  | nil => exact h
  | cons segment more ih =>
    exact ih (isReduced_push h (unslashed segment List.mem_cons_self))
      fun s hs => unslashed s (List.mem_cons_of_mem _ hs)

theorem isReduced_reduce {absolute : Bool} {segments : List Segment}
    (unslashed : ∀ segment ∈ segments, '/' ∉ segment) :
    IsReduced absolute (reduce absolute segments) :=
  isReduced_foldl_push ⟨0, [], rfl, fun _ => rfl, by simp⟩ unslashed

theorem foldl_push_names {absolute : Bool} {names : List Segment} (kept : List Segment)
    (named : ∀ name ∈ names, IsName name) :
    names.foldl (push absolute) kept = names.reverse ++ kept := by
  induction names generalizing kept with
  | nil => rfl
  | cons name names ih =>
    rw [List.foldl_cons, push_of_isName (named name List.mem_cons_self),
      ih _ fun n hn => named n (List.mem_cons_of_mem _ hn)]
    simp

theorem foldl_push_replicate (climbs done : Nat) :
    (List.replicate climbs up).foldl (push false) (List.replicate done up) =
      List.replicate (done + climbs) up := by
  induction climbs generalizing done with
  | zero => rfl
  | succ climbs ih =>
    rw [List.replicate_succ, List.foldl_cons, push_up_replicate, ih]
    congr 1
    omega

theorem reduce_of_isReduced {absolute : Bool} {segments : List Segment}
    (h : IsReduced absolute segments) : reduce absolute segments = segments := by
  obtain ⟨climbs, names, rfl, root, named⟩ := h
  unfold reduce
  rw [List.foldl_append]
  cases absolute with
  | true =>
    obtain rfl := root rfl
    rw [List.replicate_zero, List.foldl_nil, foldl_push_names _ named]
    simp
  | false =>
    have run := foldl_push_replicate climbs 0
    rw [List.replicate_zero, Nat.zero_add] at run
    rw [run, foldl_push_names _ named]
    simp [List.reverse_replicate]

/-! ## Segments and texts -/

theorem IsReduced.unslashed {absolute : Bool} {segments : List Segment}
    (h : IsReduced absolute segments) {segment : Segment} (mem : segment ∈ segments) :
    '/' ∉ segment := by
  obtain ⟨climbs, names, rfl, -, named⟩ := h
  rcases List.mem_append.1 mem with mem | mem
  · rw [List.eq_of_mem_replicate mem]
    decide
  · exact (named segment mem).unslashed

theorem IsReduced.ne_nil {absolute : Bool} {segments : List Segment}
    (h : IsReduced absolute segments) {segment : Segment} (mem : segment ∈ segments) :
    segment ≠ [] := by
  obtain ⟨climbs, names, rfl, -, named⟩ := h
  rcases List.mem_append.1 mem with mem | mem
  · rw [List.eq_of_mem_replicate mem]
    decide
  · exact (named segment mem).ne_nil

theorem isAbsolute_render {absolute : Bool} {segments : List Segment}
    (h : IsReduced absolute segments) : isAbsolute (render absolute segments) = absolute := by
  cases absolute with
  | true => rfl
  | false =>
    cases segments with
    | nil => rfl
    | cons first rest =>
      have filled := h.ne_nil List.mem_cons_self
      have plain := h.unslashed List.mem_cons_self
      obtain ⟨c, tail, rfl⟩ := List.exists_cons_of_ne_nil filled
      have ne : c ≠ '/' := fun eq => plain (by simp [eq])
      cases rest <;> simp [render, isAbsolute, ne]

/-- The slash of an absolute path stands behind an empty segment. -/
theorem segments_render {absolute : Bool} {segs : List Segment} (h : IsReduced absolute segs)
    (filled : segs ≠ []) :
    segments (render absolute segs) = (if absolute then [[]] else []) ++ segs := by
  have split : (['/'].intercalate segs).splitOn '/' = segs :=
    List.splitOn_intercalate '/' (fun _ hs => h.unslashed hs) filled
  cases absolute with
  | false => simp [segments, render, filled, split]
  | true => simp [segments, render, List.splitOn_cons_eq_if_modifyHead, split]

theorem reduce_segments_render {absolute : Bool} {segs : List Segment}
    (h : IsReduced absolute segs) :
    reduce absolute (segments (render absolute segs)) = segs := by
  have same := reduce_of_isReduced h
  by_cases empty : segs = []
  · subst empty
    cases absolute <;> rfl
  · rw [segments_render h empty]
    cases absolute <;> exact same

theorem isReduced_normal (path : List Char) :
    IsReduced (isAbsolute path) (reduce (isAbsolute path) (segments path)) :=
  isReduced_reduce fun _ => unslashed_of_mem_segments

@[simp] theorem isAbsolute_normal (path : List Char) :
    isAbsolute (normal path) = isAbsolute path :=
  isAbsolute_render (isReduced_normal path)

@[simp] theorem normal_normal (path : List Char) : normal (normal path) = normal path := by
  have back := reduce_segments_render (isReduced_normal path)
  have same := isAbsolute_normal path
  unfold normal at same ⊢
  rw [same, back]

/-! ## Names of files -/

@[simp] theorem normalize_normalize (path : String) :
    normalize (normalize path) = normalize path := by
  simp [normalize]

@[simp] theorem normalize_ofList_normal (path : List Char) :
    normalize (String.ofList (normal path)) = String.ofList (normal path) := by
  simp [normalize]

@[simp] theorem normalize_resolve (spec origin : String) :
    normalize (resolve spec origin) = resolve spec origin := by
  unfold resolve
  split
  · split <;> simp
  · simp

end CoChange.Path
