/-!
# Catalogs

A catalog holds at most one value under each name and lists its entries by name, in the order of
the code points. Equal look-ups make equal catalogs, so a catalog does not remember in which order
it was filled.
-/

namespace CoChange

/-! ## Entries in order -/

namespace Entries

variable {α : Type}

/-- Entries with strictly ascending names. -/
abbrev Ascending (entries : List (String × α)) : Prop :=
  entries.Pairwise fun a b => a.1 < b.1

/-- Replaces the value under `name` by `f` of it, at the place that keeps the order. -/
def update (name : String) (f : Option α → α) : List (String × α) → List (String × α)
  | [] => [(name, f none)]
  | (key, value) :: rest =>
    if name < key then (name, f none) :: (key, value) :: rest
    else if name = key then (name, f (some value)) :: rest
    else (key, value) :: update name f rest

theorem mem_names_update {name key : String} {f : Option α → α} {entries : List (String × α)} :
    key ∈ (update name f entries).map (·.1) ↔ key = name ∨ key ∈ entries.map (·.1) := by
  induction entries with
  | nil => simp [update]
  | cons entry rest ih =>
    obtain ⟨k, v⟩ := entry
    unfold update
    split
    · simp
    · split
      · next h => simp [h]
      · simp only [List.map_cons, List.mem_cons, ih]
        grind

theorem ascending_update {name : String} {f : Option α → α} {entries : List (String × α)}
    (h : Ascending entries) : Ascending (update name f entries) := by
  induction entries with
  | nil => simp [update, Ascending]
  | cons entry rest ih =>
    obtain ⟨k, v⟩ := entry
    obtain ⟨above, tail⟩ := List.pairwise_cons.1 h
    unfold update
    split
    · next lt =>
      refine List.pairwise_cons.2 ⟨fun e he => ?_, h⟩
      rcases List.mem_cons.1 he with rfl | he
      · exact lt
      · exact String.lt_trans lt (above e he)
    · split
      · next eq => exact List.pairwise_cons.2 ⟨fun e he => eq ▸ above e he, tail⟩
      · next nlt ne =>
        refine List.pairwise_cons.2 ⟨fun e he => ?_, ih tail⟩
        rcases mem_names_update.1 (List.mem_map_of_mem he) with eq | mem
        · refine eq ▸ String.not_le.1 fun le => ?_
          exact ne (String.le_antisymm le (String.not_lt.1 nlt))
        · obtain ⟨e', he', eq⟩ := List.mem_map.1 mem
          exact eq ▸ above e' he'

theorem lookup_eq_none {name : String} {entries : List (String × α)}
    (below : ∀ entry ∈ entries, name < entry.1) : entries.lookup name = none := by
  refine List.lookup_eq_none_iff.2 fun entry he => ?_
  exact bne_iff_ne.2 fun eq => String.lt_irrefl name (by simpa [← eq] using below entry he)

theorem lookup_update {name key : String} {f : Option α → α} {entries : List (String × α)}
    (h : Ascending entries) :
    (update name f entries).lookup key =
      if key = name then some (f (entries.lookup name)) else entries.lookup key := by
  induction entries with
  | nil => by_cases eq : key = name <;> simp [update, List.lookup_cons, eq, beq_false_of_ne]
  | cons entry rest ih =>
    obtain ⟨k, v⟩ := entry
    obtain ⟨above, tail⟩ := List.pairwise_cons.1 h
    unfold update
    split
    · next lt =>
      have absent : ((k, v) :: rest).lookup name = none := by
        refine lookup_eq_none fun e he => ?_
        rcases List.mem_cons.1 he with rfl | he
        · exact lt
        · exact String.lt_trans lt (above e he)
      by_cases eq : key = name
      · simp [eq, absent]
      · simp [List.lookup_cons, eq, beq_false_of_ne]
    · split
      · next eq =>
        subst eq
        by_cases eq : key = name <;> simp [List.lookup_cons, eq, beq_false_of_ne]
      · next nlt ne =>
        simp only [List.lookup_cons, ih tail, beq_false_of_ne ne]
        by_cases eq : key = name
        · subst eq
          simp [beq_false_of_ne ne]
        · simp [eq]

end Entries

/-- Values under names, listed by name. -/
structure Catalog (α : Type) where
  entries : List (String × α)
  ascending : Entries.Ascending entries := by simp [Entries.Ascending]

namespace Catalog

variable {α : Type}

def empty : Catalog α := ⟨[], .nil⟩

instance : EmptyCollection (Catalog α) := ⟨empty⟩

instance : Inhabited (Catalog α) := ⟨empty⟩

def names (catalog : Catalog α) : List String := catalog.entries.map (·.1)

def values (catalog : Catalog α) : List α := catalog.entries.map (·.2)

def size (catalog : Catalog α) : Nat := catalog.entries.length

def get? (catalog : Catalog α) (name : String) : Option α := catalog.entries.lookup name

/-- Replaces the value under `name` by `f` of it. -/
def update (catalog : Catalog α) (name : String) (f : Option α → α) : Catalog α :=
  ⟨Entries.update name f catalog.entries, Entries.ascending_update catalog.ascending⟩

def insert (catalog : Catalog α) (name : String) (value : α) : Catalog α :=
  catalog.update name fun _ => value

/-- The catalog of a list of entries; of several under one name the last one counts. -/
def ofList (entries : List (String × α)) : Catalog α :=
  entries.foldl (fun catalog (name, value) => catalog.insert name value) empty

@[simp] theorem entries_empty : (empty : Catalog α).entries = [] := rfl

theorem mem_names_insert {catalog : Catalog α} {name key : String} {value : α} :
    key ∈ (catalog.insert name value).names ↔ key = name ∨ key ∈ catalog.names :=
  Entries.mem_names_update

theorem get?_update (catalog : Catalog α) (name key : String) (f : Option α → α) :
    (catalog.update name f).get? key =
      if key = name then some (f (catalog.get? name)) else catalog.get? key :=
  Entries.lookup_update catalog.ascending

theorem get?_insert (catalog : Catalog α) (name key : String) (value : α) :
    (catalog.insert name value).get? key = if key = name then some value else catalog.get? key :=
  get?_update ..

theorem mem_names_ofList {entries : List (String × α)} {key : String} :
    key ∈ (ofList entries).names ↔ key ∈ entries.map (·.1) := by
  suffices h : ∀ catalog : Catalog α,
      key ∈ (entries.foldl (fun catalog (name, value) => catalog.insert name value) catalog).names ↔
        key ∈ catalog.names ∨ key ∈ entries.map (·.1) by
    exact (h empty).trans (by simp [names, empty])
  induction entries with
  | nil => simp
  | cons entry rest ih =>
    intro catalog
    simp only [List.foldl_cons, ih, mem_names_insert, List.map_cons, List.mem_cons]
    grind

end Catalog

end CoChange
