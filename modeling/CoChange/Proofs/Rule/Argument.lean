import CoChange.Proofs.Outcome
import CoChange.Proofs.Text.Words
import CoChange.Rule.Reader

/-!
# Targets as arguments

An argument writes a target as its file, as its identifier behind a colon, or as both. The target
is read back from it (`Target.read?_eq_some_iff`), since the file ends at the first colon.
-/

namespace CoChange

/-- A target that an argument can write: it gives a file without a colon, an identifier or both,
and neither is empty. -/
structure Target.IsNamed (target : Target) : Prop where
  file : ∀ file ∈ target.file, file.toList ≠ [] ∧ ':' ∉ file.toList
  id : ∀ id ∈ target.id, id.toList ≠ []
  given : target ≠ ⟨none, none⟩

/-- A target that can stand in a row of words. -/
structure Target.IsPlain (target : Target) : Prop where
  file : ∀ file ∈ target.file, Text.IsWord file.toList ∧ ':' ∉ file.toList
  id : ∀ id ∈ target.id, Text.IsWord id.toList
  given : target ≠ ⟨none, none⟩

namespace Target

theorem toList_written (target : Target) :
    target.written.toList =
      (target.file.getD "").toList ++ (target.id.map fun id => ':' :: id.toList).getD [] := by
  unfold written
  cases target.id <;> simp

theorem written_of_read? {argument : String} {target : Target} (h : read? argument = some target) :
    target.IsNamed ∧ target.written = argument := by
  rw [← String.toList_inj, toList_written]
  unfold read? at h
  split at h
  · next uncut =>
    split at h
    · cases h
    · next filled =>
      cases h
      have colonless := Text.cutFirst?_eq_none_iff.1 uncut
      refine ⟨⟨fun file eq => ?_, fun id eq => (nomatch eq), fun eq => (nomatch eq)⟩, ?_⟩
      · cases eq
        exact ⟨filled, colonless⟩
      · simp
  · cases h
  · next id filled cut =>
    cases h
    obtain ⟨eq, -⟩ := Text.cutFirst?_eq_some_iff.1 cut
    refine ⟨⟨fun file eq => (nomatch eq), fun _ eq => ?_, fun eq => (nomatch eq)⟩, ?_⟩
    · cases eq
      rwa [String.toList_ofList]
    · simp [eq]
  · next file id filled named cut =>
    cases h
    obtain ⟨eq, colonless⟩ := Text.cutFirst?_eq_some_iff.1 cut
    refine ⟨⟨fun _ eq => ?_, fun _ eq => ?_, fun eq => (nomatch eq)⟩, ?_⟩
    · cases eq
      rw [String.toList_ofList]
      exact ⟨named, colonless⟩
    · cases eq
      rwa [String.toList_ofList]
    · simp [eq]

theorem read?_written {target : Target} (h : target.IsNamed) :
    read? target.written = some target := by
  have chars := toList_written target
  obtain ⟨file, id⟩ := target
  unfold read?
  cases id with
  | none =>
    cases file with
    | none => exact absurd rfl h.given
    | some file =>
      obtain ⟨filled, colonless⟩ := h.file file rfl
      have plain : Target.written ⟨some file, none⟩ = file := String.append_empty
      rw [plain, Text.cutFirst?_eq_none_iff.2 colonless]
      exact if_neg filled
  | some id =>
    obtain ⟨c, rest, eq⟩ := List.exists_cons_of_ne_nil (h.id id rfl)
    have behind : String.ofList (c :: rest) = id := by rw [← eq, String.ofList_toList]
    cases file with
    | none =>
      have cut : Text.cutFirst? ':' (Target.written ⟨none, some id⟩).toList = some ([], c :: rest) :=
        Text.cutFirst?_eq_some_iff.2 ⟨chars.trans (by rw [← eq]; rfl), by simp⟩
      rw [cut]
      dsimp only
      rw [behind]
    | some file =>
      obtain ⟨filled, colonless⟩ := h.file file rfl
      obtain ⟨d, more, eq'⟩ := List.exists_cons_of_ne_nil filled
      have before : String.ofList (d :: more) = file := by rw [← eq', String.ofList_toList]
      have cut : Text.cutFirst? ':' (Target.written ⟨some file, some id⟩).toList =
          some (d :: more, c :: rest) :=
        Text.cutFirst?_eq_some_iff.2 ⟨chars.trans (by rw [← eq, ← eq']; rfl), eq' ▸ colonless⟩
      rw [cut]
      dsimp only
      rw [before, behind]

/-- An argument is read as the target that it writes. -/
theorem read?_eq_some_iff {argument : String} {target : Target} :
    read? argument = some target ↔ target.IsNamed ∧ target.written = argument :=
  ⟨written_of_read?, fun ⟨named, eq⟩ => eq ▸ read?_written named⟩

theorem IsPlain.isNamed {target : Target} (h : target.IsPlain) : target.IsNamed :=
  ⟨fun file eq => ⟨(h.file file eq).1.filled, (h.file file eq).2⟩,
    fun id eq => (h.id id eq).filled, h.given⟩

theorem IsPlain.isWord_written {target : Target} (h : target.IsPlain) :
    Text.IsWord target.written.toList := by
  obtain ⟨file, id⟩ := target
  rw [toList_written]
  constructor
  · intro empty
    obtain ⟨before, behind⟩ := List.append_eq_nil_iff.1 empty
    cases file with
    | some name => exact (h.file name rfl).1.filled before
    | none =>
      cases id with
      | some text => cases behind
      | none => exact h.given rfl
  · intro c mem
    rcases List.mem_append.1 mem with mem | mem
    · cases file with
      | some name => exact (h.file name rfl).1.solid c mem
      | none => cases mem
    · cases id with
      | some text =>
        rcases List.mem_cons.1 mem with rfl | mem
        · decide
        · exact (h.id text rfl).solid c mem
      | none => cases mem

/-- The texts that name a target: a file, an identifier behind a colon, or both. -/
inductive IsArgument : List Char → Prop
  | file {file : List Char} (filled : file ≠ []) (plain : ':' ∉ file) : IsArgument file
  | id {id : List Char} (filled : id ≠ []) : IsArgument (':' :: id)
  | both {file id : List Char} (filled : file ≠ []) (plain : ':' ∉ file) (named : id ≠ []) :
      IsArgument (file ++ ':' :: id)

theorem exists_read?_iff {argument : String} :
    (∃ target, read? argument = some target) ↔ IsArgument argument.toList := by
  simp only [read?_eq_some_iff]
  constructor
  · rintro ⟨target, named, rfl⟩
    rw [toList_written]
    obtain ⟨file, id⟩ := target
    cases file with
    | none =>
      cases id with
      | none => exact absurd rfl named.given
      | some id => exact .id (named.id id rfl)
    | some file =>
      obtain ⟨filled, plain⟩ := named.file file rfl
      cases id with
      | none => simpa using IsArgument.file filled plain
      | some id => exact .both filled plain (named.id id rfl)
  · intro h
    generalize chars : argument.toList = text at h
    cases h with
    | file filled plain =>
      refine ⟨⟨some argument, none⟩, ⟨?_, ?_, by simp⟩, String.append_empty⟩
      · rintro _ ⟨⟩
        rw [chars]
        exact ⟨filled, plain⟩
      · rintro _ ⟨⟩
    | @id id filled =>
      refine ⟨⟨none, some (String.ofList id)⟩, ⟨?_, ?_, by simp⟩, ?_⟩
      · rintro _ ⟨⟩
      · rintro _ ⟨⟩
        rwa [String.toList_ofList]
      · rw [← String.toList_inj, toList_written, chars]
        simp
    | @both file id filled plain named =>
      refine ⟨⟨some (String.ofList file), some (String.ofList id)⟩, ⟨?_, ?_, by simp⟩, ?_⟩
      · rintro _ ⟨⟩
        rw [String.toList_ofList]
        exact ⟨filled, plain⟩
      · rintro _ ⟨⟩
        rwa [String.toList_ofList]
      · rw [← String.toList_inj, toList_written, chars]
        simp

end Target

/-! ## Rows of arguments -/

namespace Rule

variable {file : String} {line : Nat} {arguments : List String}

/-- The arguments of an IF are read as the targets that they write. -/
theorem readTargets_eq_ok_iff {targets : List Target} :
    readTargets file line arguments = .ok targets ↔
      (∀ target ∈ targets, target.IsNamed) ∧ targets.map (·.written) = arguments := by
  induction arguments generalizing targets with
  | nil =>
    rw [List.map_eq_nil_iff]
    constructor
    · intro h
      cases h
      exact ⟨by simp, rfl⟩
    · rintro ⟨-, rfl⟩
      rfl
  | cons argument rest ih =>
    unfold readTargets
    constructor
    · intro h
      split at h
      · cases h
      · next target read =>
        obtain ⟨more, readMore, rfl⟩ := Outcome.map_eq_ok_iff.1 h
        obtain ⟨named, eq⟩ := Target.read?_eq_some_iff.1 read
        obtain ⟨namedMore, eqMore⟩ := ih.1 readMore
        refine ⟨List.forall_mem_cons.2 ⟨named, namedMore⟩, ?_⟩
        rw [List.map_cons, eq, eqMore]
    · rintro ⟨named, eq⟩
      obtain ⟨target, more, rfl, here, behind⟩ := List.map_eq_cons_iff.1 eq
      obtain ⟨first, others⟩ := List.forall_mem_cons.1 named
      rw [Target.read?_eq_some_iff.2 ⟨first, here⟩]
      exact Outcome.map_eq_ok_iff.2 ⟨more, ih.2 ⟨others, behind⟩, rfl⟩

theorem exists_readTargets_iff :
    (∃ targets, readTargets file line arguments = .ok targets) ↔
      ∀ argument ∈ arguments, Target.IsArgument argument.toList := by
  simp only [← Target.exists_read?_iff, readTargets_eq_ok_iff]
  constructor
  · rintro ⟨targets, named, rfl⟩ argument mem
    obtain ⟨target, listed, rfl⟩ := List.mem_map.1 mem
    exact ⟨target, Target.read?_written (named target listed)⟩
  · intro each
    induction arguments with
    | nil => exact ⟨[], by simp, rfl⟩
    | cons argument rest ih =>
      obtain ⟨⟨target, read⟩, others⟩ := List.forall_mem_cons.1 each
      obtain ⟨named, eq⟩ := Target.read?_eq_some_iff.1 read
      obtain ⟨targets, namedMore, eqMore⟩ := ih others
      refine ⟨target :: targets, List.forall_mem_cons.2 ⟨named, namedMore⟩, ?_⟩
      rw [List.map_cons, eq, eqMore]

theorem readId_eq_ok_iff {id : Option String} :
    readId file line arguments = .ok id ↔ id.toList = arguments := by
  cases id with
  | none => cases arguments with
    | nil => simp [readId]
    | cons first rest => cases rest <;> simp [readId]
  | some id => cases arguments with
    | nil => simp [readId]
    | cons first rest => cases rest <;> simp [readId, eq_comm]

theorem exists_readId_iff :
    (∃ id, readId file line arguments = .ok id) ↔ arguments.length ≤ 1 := by
  simp only [readId_eq_ok_iff]
  constructor
  · rintro ⟨id, rfl⟩
    cases id <;> simp
  · intro short
    match arguments, short with
    | [], _ => exact ⟨none, rfl⟩
    | [id], _ => exact ⟨some id, rfl⟩

end Rule

end CoChange
