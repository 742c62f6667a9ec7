import CoChange.Proofs.CommandLine.Spelling

/-!
# Values of options

The arguments that options make up hold the values given to each setting, in order
(`giveAll_eq_some_iff`). So of options that are spelled in any way only the order among the values of
one setting counts (`read_eq_lint_iff`).
-/

namespace CoChange.Arguments

/-- The values that arguments hold for a setting. -/
def valuesAt (arguments : Arguments) : Setting → List String
  | .included => arguments.included
  | .excluded => arguments.excluded
  | .overrides => arguments.overrides.toList
  | .fallback => arguments.fallback.toList
  | .root => arguments.root.toList
  | .diff => arguments.diff.toList
  | .format => arguments.format.toList.map Format.name

/-- The settings whose value is a path. -/
def pathSettings : List Setting := [.overrides, .root, .diff]

/-- Arguments that hold, behind those of earlier ones, the values given to each setting in order. -/
structure Extends (earlier : Arguments) (given : List Given) (arguments : Arguments) : Prop where
  values : ∀ setting,
    arguments.valuesAt setting = earlier.valuesAt setting ++ Given.valuesOf setting given
  verbose : arguments.verbose.toNat = earlier.verbose.toNat + given.count .verbose
  paths : ∀ setting ∈ pathSettings, "" ∉ Given.valuesOf setting given

theorem Extends.trans {first second third : Arguments} {given rest : List Given}
    (h : Extends first given second) (more : Extends second rest third) :
    Extends first (given ++ rest) third where
  values setting := by
    rw [more.values, h.values, List.append_assoc, Given.valuesOf_append]
  verbose := by
    rw [more.verbose, h.verbose, List.count_append, Nat.add_assoc]
  paths setting path mem := by
    rw [Given.valuesOf_append, List.mem_append] at mem
    exact mem.elim (h.paths setting path) (more.paths setting path)

theorem Extends.behind {first second third : Arguments} {given rest : List Given}
    (whole : Extends first (given ++ rest) third) (h : Extends first given second) :
    Extends second rest third where
  values setting := by
    rw [whole.values, h.values, Given.valuesOf_append, List.append_assoc]
  verbose := by
    rw [whole.verbose, h.verbose, List.count_append, Nat.add_assoc]
  paths setting path mem := by
    refine whole.paths setting path ?_
    rw [Given.valuesOf_append]
    exact List.mem_append_right _ mem

theorem once_eq_some_iff {α : Type} {place filled : Option α} {value : α} :
    once place value = some filled ↔ place = none ∧ some value = filled := by
  cases place <;> simp [once]

theorem oncePath_eq_some_iff {place filled : Option String} {path : String} :
    oncePath place path = some filled ↔ path ≠ "" ∧ place = none ∧ some path = filled := by
  unfold oncePath
  split
  · next empty => simp [empty]
  · next filled => simp [filled, once_eq_some_iff]

theorem name_of_ofName? {name : String} {format : Format} (h : Format.ofName? name = some format) :
    format.name = name := by
  have found := List.find?_some h
  exact beq_iff_eq.1 found

theorem ofName?_name (format : Format) : Format.ofName? format.name = some format := by
  cases format <;> rfl

theorem valuesAt_set {arguments next : Arguments} {setting : Setting} {value : String}
    (h : arguments.set setting value = some next) :
    (∀ other, next.valuesAt other =
      arguments.valuesAt other ++ if setting = other then [value] else []) ∧
    next.verbose = arguments.verbose ∧ (setting ∈ pathSettings → value ≠ "") := by
  cases setting with
  | included | excluded =>
    cases h
    refine ⟨fun other => ?_, rfl, fun path => absurd path (by decide)⟩
    cases other <;> simp [valuesAt]
  | overrides | root | diff =>
    obtain ⟨filled, taken, rfl⟩ := Option.map_eq_some_iff.1 h
    obtain ⟨ne, empty, rfl⟩ := oncePath_eq_some_iff.1 taken
    refine ⟨fun other => ?_, rfl, fun _ => ne⟩
    cases other <;> simp [valuesAt, empty]
  | fallback =>
    obtain ⟨filled, taken, rfl⟩ := Option.map_eq_some_iff.1 h
    obtain ⟨empty, rfl⟩ := once_eq_some_iff.1 taken
    refine ⟨fun other => ?_, rfl, fun path => absurd path (by decide)⟩
    cases other <;> simp [valuesAt, empty]
  | format =>
    obtain ⟨filled, taken, rfl⟩ := Option.map_eq_some_iff.1 h
    obtain ⟨format, named, taken⟩ := Option.bind_eq_some_iff.1 taken
    obtain ⟨empty, rfl⟩ := once_eq_some_iff.1 taken
    refine ⟨fun other => ?_, rfl, fun path => absurd path (by decide)⟩
    cases other <;> simp [valuesAt, empty, name_of_ofName? named]

/-- An option that is taken adds its value and nothing else. -/
theorem extends_give {arguments next : Arguments} {option : Given}
    (h : arguments.give option = some next) : Extends arguments [option] next := by
  cases option with
  | verbose =>
    simp only [give] at h
    by_cases on : arguments.verbose
    · rw [if_pos on] at h
      cases h
    · rw [if_neg on] at h
      cases h
      refine ⟨fun setting => ?_, by simp [on], fun setting _ mem => absurd mem List.not_mem_nil⟩
      cases setting <;> exact (List.append_nil _).symm
  | setting setting value =>
    obtain ⟨values, verbose, filled⟩ := valuesAt_set h
    refine ⟨fun other => ?_, by rw [verbose]; rfl, fun other path mem => ?_⟩
    · rw [values, Given.valuesOf_singleton]
    · rw [Given.valuesOf_singleton] at mem
      split at mem
      · next eq => exact filled (eq ▸ path) (List.mem_singleton.1 mem).symm
      · cases mem

theorem eq_none_of_toList {α : Type} {place filled : Option α} {value : α} {rest : List α}
    (h : filled.toList = place.toList ++ value :: rest) : place = none := by
  cases place <;> cases filled <;> simp_all

theorem exists_give {arguments last : Arguments} {option : Given} {rest : List Given}
    (h : Extends arguments (option :: rest) last) : ∃ next, arguments.give option = some next := by
  cases option with
  | verbose =>
    have off : arguments.verbose = false := by
      have once := h.verbose
      have := Bool.toNat_le last.verbose
      rw [List.count_cons_self] at once
      exact Bool.toNat_eq_zero.1 (by omega)
    simp [give, off]
  | setting setting value =>
    have here : last.valuesAt setting =
        arguments.valuesAt setting ++ value :: Given.valuesOf setting rest := by
      rw [h.values, Given.valuesOf_cons_self]
    have filled : setting ∈ pathSettings → value ≠ "" := by
      rintro path rfl
      refine h.paths setting path ?_
      rw [Given.valuesOf_cons_self]
      exact List.mem_cons_self
    -- A place that holds the value in the end cannot have been filled before.
    cases setting with
    | included | excluded => exact ⟨_, rfl⟩
    | overrides | root | diff =>
      have empty := eq_none_of_toList here
      simp [give, set, oncePath, once, empty, filled (by decide)]
    | fallback =>
      have empty := eq_none_of_toList here
      simp [give, set, once, empty]
    | format =>
      unfold valuesAt at here
      rw [← Option.toList_map, ← Option.toList_map] at here
      have empty := Option.map_eq_none_iff.1 (eq_none_of_toList here)
      cases held : last.format with
      | none => simp [held] at here
      | some format =>
        have named : format.name = value := by simp_all
        simp [give, set, once, empty, ← named, ofName?_name]

theorem eq_of_toList {α : Type} {place other : Option α} (h : place.toList = other.toList) :
    place = other := by
  cases place <;> cases other <;> simp_all

/-- Arguments that hold the same values but for the format differ at most in it and in being
verbose. -/
theorem eq_of_valuesAt {arguments other : Arguments}
    (same : ∀ setting ≠ .format, other.valuesAt setting = arguments.valuesAt setting) :
    other = { arguments with format := other.format, verbose := other.verbose } := by
  have included : other.included = arguments.included := same .included (by decide)
  have excluded : other.excluded = arguments.excluded := same .excluded (by decide)
  have overrides := eq_of_toList (same .overrides (by decide))
  have fallback := eq_of_toList (same .fallback (by decide))
  have root := eq_of_toList (same .root (by decide))
  have diff := eq_of_toList (same .diff (by decide))
  cases other
  simp_all

theorem name_injective {format other : Format} (h : format.name = other.name) : format = other := by
  have read := ofName?_name format
  rw [h, ofName?_name] at read
  exact (Option.some.inj read).symm

theorem extends_nil_iff {arguments last : Arguments} :
    Extends arguments [] last ↔ last = arguments := by
  constructor
  · intro h
    have same (setting : Setting) : last.valuesAt setting = arguments.valuesAt setting :=
      (h.values setting).trans (List.append_nil _)
    have format : last.format = arguments.format := by
      have names := same .format
      unfold valuesAt at names
      rw [← Option.toList_map, ← Option.toList_map] at names
      exact Option.map_injective (fun _ _ => name_injective) (eq_of_toList names)
    have verbose : last.verbose = arguments.verbose := by
      have count := h.verbose
      cases on : last.verbose <;> cases before : arguments.verbose <;> simp_all
    rw [eq_of_valuesAt fun setting _ => same setting, format, verbose]
  · rintro rfl
    refine ⟨fun setting => (List.append_nil _).symm, rfl, fun _ _ mem => absurd mem List.not_mem_nil⟩

/-- Options can be taken in order exactly when some arguments hold their values in order. -/
theorem giveAll_eq_some_iff {arguments last : Arguments} {given : List Given} :
    arguments.giveAll given = some last ↔ Extends arguments given last := by
  induction given generalizing arguments with
  | nil =>
    rw [giveAll_nil, extends_nil_iff, Option.some.injEq, eq_comm]
  | cons option rest ih =>
    rw [giveAll_cons, Option.bind_eq_some_iff]
    constructor
    · rintro ⟨next, taken, h⟩
      exact (extends_give taken).trans (ih.1 h)
    · intro h
      obtain ⟨next, taken⟩ := exists_give h
      exact ⟨next, taken, ih.2 (h.behind (extends_give taken))⟩

/-- Arguments that hold the values given to each setting in order, each but a glob once at most. -/
structure Collects (arguments : Arguments) (given : List Given) : Prop where
  values : ∀ setting, arguments.valuesAt setting = Given.valuesOf setting given
  verbose : arguments.verbose.toNat = given.count .verbose
  paths : ∀ setting ∈ pathSettings, "" ∉ Given.valuesOf setting given

/-- The same options in another order, which keeps the values of each setting in order. -/
def Rearranges (given other : List Given) : Prop :=
  other.Perm given ∧ ∀ setting, Given.valuesOf setting other = Given.valuesOf setting given

theorem Collects.of_rearranges {arguments : Arguments} {given other : List Given}
    (h : arguments.Collects given) (rearranges : Rearranges given other) :
    arguments.Collects other where
  values setting := (h.values setting).trans (rearranges.2 setting).symm
  verbose := h.verbose.trans (rearranges.1.count_eq _).symm
  paths setting path := by
    rw [rearranges.2 setting]
    exact h.paths setting path

/-- **Spellings.** However options are spelled, they are read as the arguments that hold their values
in order. -/
theorem read_eq_lint_iff {given : List Given} {spelled : List String} (h : Spells given spelled)
    {arguments : Arguments} :
    read spelled = some (.lint arguments) ↔ arguments.Collects given := by
  have taken : (giveAll {} given).map Invocation.lint = some (.lint arguments) ↔
      giveAll {} given = some arguments := by
    rw [Option.map_eq_some_iff]
    constructor
    · rintro ⟨other, taken, eq⟩
      cases eq
      exact taken
    · exact fun taken => ⟨arguments, taken, rfl⟩
  have empty (setting : Setting) : ({} : Arguments).valuesAt setting = [] := by
    cases setting <;> rfl
  unfold read
  rw [readFrom_of_spells h, taken, giveAll_eq_some_iff]
  constructor
  · intro held
    refine ⟨fun setting => ?_, held.verbose.trans (Nat.zero_add _), held.paths⟩
    rw [held.values, empty, List.nil_append]
  · intro held
    refine ⟨fun setting => ?_, held.verbose.trans (Nat.zero_add _).symm, held.paths⟩
    rw [held.values, empty, List.nil_append]

end CoChange.Arguments
