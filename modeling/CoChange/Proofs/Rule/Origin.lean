import CoChange.Proofs.Path.NormalForm
import CoChange.Rule

/-!
# Targets seen from a file

A specifier that starts with `./` or `../` is put behind the segments of the file that mentions it,
the last one left out (`Path.resolve_of_isLocal`). Normalizing that file first keeps its last
segment, if this is a name, and reduces the ones before it (`Path.segments_normal_of_name`), so it
makes no difference to what a target points at how the file is spelled (`Target.key_of_origin`).
-/

namespace CoChange

namespace Path

/-! ## The segments of a file -/

@[simp] theorem segments_append_slash (a b : List Char) :
    segments (a ++ '/' :: b) = segments a ++ segments b :=
  List.splitOnP_append_cons a b (beq_self_eq_true '/')

theorem segments_of_unslashed {path : List Char} (h : '/' ∉ path) : segments path = [path] :=
  List.splitOn_eq_singleton h

theorem isLocal_iff {spec : List Char} :
    isLocal spec = true ↔ ['.', '/'] <+: spec ∨ ['.', '.', '/'] <+: spec := by
  rw [isLocal, Bool.or_eq_true, List.isPrefixOf_iff_prefix, List.isPrefixOf_iff_prefix]

theorem isAbsolute_of_isLocal {spec : List Char} (h : isLocal spec = true) :
    isAbsolute spec = false := by
  rcases isLocal_iff.1 h with ⟨rest, rfl⟩ | ⟨rest, rfl⟩ <;> rfl

/-- A specifier relative to a file takes the place of the last segment of the file. -/
theorem resolve_of_isLocal {spec : String} (h : isLocal spec.toList = true) (origin : String) :
    (resolve spec origin).toList = render (isAbsolute origin.toList)
      (reduce (isAbsolute origin.toList)
        ((segments origin.toList).dropLast ++ segments spec.toList)) := by
  unfold resolve
  rw [if_pos h]
  split
  · next directory name cut =>
    obtain ⟨eq, plain⟩ := Text.cutLast?_eq_some_iff.1 cut
    have root : isAbsolute (directory ++ '/' :: spec.toList) = isAbsolute origin.toList := by
      rw [eq]
      cases directory <;> rfl
    rw [String.toList_ofList, normal, root, eq, segments_append_slash, segments_append_slash,
      segments_of_unslashed plain, List.dropLast_concat]
  · next uncut =>
    have plain := Text.cutLast?_eq_none_iff.1 uncut
    have relative : isAbsolute origin.toList = false := by
      cases chars : origin.toList with
      | nil => rfl
      | cons c rest =>
        rw [chars] at plain
        simp [isAbsolute, (List.ne_and_not_mem_of_not_mem_cons plain).1.symm]
    rw [toList_normalize, normal, isAbsolute_of_isLocal h, relative, segments_of_unslashed plain]
    rfl

/-! ## Normalizing the file first -/

theorem reduce_reduce_append {absolute : Bool} {a : List Segment}
    (unslashed : ∀ segment ∈ a, '/' ∉ segment) (b : List Segment) :
    reduce absolute (reduce absolute a ++ b) = reduce absolute (a ++ b) := by
  have twice : reduce absolute (reduce absolute a) = reduce absolute a :=
    reduce_of_isReduced (isReduced_reduce unslashed)
  have stack : (reduce absolute a).foldl (push absolute) [] = a.foldl (push absolute) [] :=
    List.reverse_inj.1 twice
  unfold reduce at stack ⊢
  rw [List.foldl_append, List.foldl_append, stack]

/-- Normalizing a path that ends in a name keeps the name and reduces what stands before it. -/
theorem segments_normal_of_name {path : List Char} {before : List Segment} {name : Segment}
    (eq : segments path = before ++ [name]) (named : IsName name) :
    segments (normal path) =
      (if isAbsolute path then [[]] else []) ++ reduce (isAbsolute path) before ++ [name] := by
  have reduced : reduce (isAbsolute path) (segments path) =
      reduce (isAbsolute path) before ++ [name] := by
    rw [eq]
    unfold reduce
    rw [List.foldl_append, List.foldl_cons, List.foldl_nil, push_of_isName named, List.reverse_cons]
  have shape := isReduced_normal path
  unfold normal
  rw [reduced] at shape ⊢
  rw [segments_render shape (by simp), List.append_assoc]

/-- What a specifier names does not depend on how the file that mentions it is spelled. -/
theorem resolve_normalize {origin : String} {name : Segment}
    (last : (segments origin.toList).getLast? = some name) (named : IsName name) (spec : String) :
    resolve spec (normalize origin) = resolve spec origin := by
  cases here : isLocal spec.toList with
  | false => rw [resolve_of_not_local here, resolve_of_not_local here]
  | true =>
    obtain ⟨before, eq⟩ := List.getLast?_eq_some_iff.1 last
    have plain : ∀ segment ∈ before, '/' ∉ segment := by
      intro segment mem
      have listed : segment ∈ segments origin.toList := by simp [eq, mem]
      exact unslashed_of_mem_segments listed
    rw [← String.toList_inj, resolve_of_isLocal here, resolve_of_isLocal here, toList_normalize,
      isAbsolute_normal, segments_normal_of_name eq named, List.dropLast_concat, eq,
      List.dropLast_concat, ← reduce_reduce_append plain]
    -- In an absolute path the segment before the first slash adds nothing.
    cases isAbsolute origin.toList <;> rfl

end Path

namespace Target

@[simp] theorem normalize_fileKey (target : Target) (origin : String) :
    Path.normalize (target.fileKey origin) = target.fileKey origin := by
  unfold fileKey
  split <;> simp

theorem fileKey_normalize {origin : String} {name : Path.Segment}
    (last : (Path.segments origin.toList).getLast? = some name) (named : Path.IsName name)
    (target : Target) : target.fileKey (Path.normalize origin) = target.fileKey origin := by
  unfold fileKey
  split
  · exact Path.resolve_normalize last named _
  · exact Path.normalize_normalize origin

/-- **Keys do not depend on spelling.** A target has the same keys as seen from a file that ends in
a name and as seen from its normal form, and points at a file in normal form. A specifier that
starts with `./` or `../` takes the place of the last segment of the file that mentions it, and the
segments are reduced, in an absolute file as those of an absolute path; any other specifier is taken
as it stands. A rule has the key of a target without a file and with its identifier, as seen from
any spelling of its file. -/
theorem key_of_origin (target : Target) (spec origin : String) :
    ((∃ name, (Path.segments origin.toList).getLast? = some name ∧
        name ≠ [] ∧ name ≠ ['.'] ∧ name ≠ Path.up) →
      target.fileKey origin = target.fileKey (Path.normalize origin) ∧
        target.key origin = target.key (Path.normalize origin)) ∧
    Path.normalize (target.fileKey origin) = target.fileKey origin ∧
    (['.', '/'] <+: spec.toList ∨ ['.', '.', '/'] <+: spec.toList →
      (Path.resolve spec origin).toList = Path.render (Path.isAbsolute origin.toList)
        (Path.reduce (Path.isAbsolute origin.toList)
          ((Path.segments origin.toList).dropLast ++ Path.segments spec.toList))) ∧
    (¬ (['.', '/'] <+: spec.toList ∨ ['.', '.', '/'] <+: spec.toList) →
      Path.resolve spec origin = Path.normalize spec) ∧
    ∀ rule : Rule, Path.normalize rule.file = Path.normalize origin →
      rule.key = (Target.mk none rule.id).key origin := by
  rw [← Path.isLocal_iff]
  refine ⟨?_, target.normalize_fileKey origin, fun here => Path.resolve_of_isLocal here origin, ?_, ?_⟩
  · rintro ⟨name, last, filled, notDot, notUp⟩
    have plain := Path.unslashed_of_mem_segments (List.mem_of_getLast? last)
    have same := fileKey_normalize last ⟨filled, notDot, notUp, plain⟩ target
    refine ⟨same.symm, ?_⟩
    unfold key
    rw [same]
  · intro notHere
    exact Path.resolve_of_not_local ((Bool.not_eq_true _).mp notHere) origin
  · intro rule same
    unfold key Rule.key Rule.fileKey fileKey
    rw [same]

/-- A file at the root, and a specifier that climbs out of a directory it is not in. -/
theorem key_of_origin_root :
    let target : Target := ⟨some "../b.py", some "z"⟩
    target.key "/x/../a.py" = target.key (Path.normalize "/x/../a.py") ∧
      (Path.resolve "../b.py" "/x/../a.py").toList =
        Path.render true (Path.reduce true [[], ['x'], ['.', '.'], ['.', '.'], "b.py".toList]) ∧
      Path.resolve "c/../b.py" "/x/../a.py" = Path.normalize "c/../b.py" := by
  intro target
  obtain ⟨same, -, climbs, -, -⟩ := key_of_origin target "../b.py" "/x/../a.py"
  obtain ⟨-, -, -, stands, -⟩ := key_of_origin target "c/../b.py" "/x/../a.py"
  have named : ∃ name, (Path.segments "/x/../a.py".toList).getLast? = some name ∧
      name ≠ [] ∧ name ≠ ['.'] ∧ name ≠ Path.up := ⟨"a.py".toList, by decide +kernel⟩
  have climbing : ['.', '/'] <+: "../b.py".toList ∨ ['.', '.', '/'] <+: "../b.py".toList := by
    decide +kernel
  have standing : ¬ (['.', '/'] <+: "c/../b.py".toList ∨ ['.', '.', '/'] <+: "c/../b.py".toList) := by
    decide +kernel
  exact ⟨(same named).2, climbs climbing, stands standing⟩

end Target

end CoChange
