import CoChange.Catalog
import Mathlib.Data.List.Sort

/-!
# Catalogs and their look-ups

A catalog is determined by its look-ups (`Catalog.ext_get?`): its names are those with a value, its
entries are the pairs that the look-ups give, and they come in ascending order.
-/

namespace CoChange

variable {α : Type}

namespace Entries

theorem mem_iff_lookup {entries : List (String × α)} (once : (entries.map (·.1)).Nodup)
    {name : String} {value : α} :
    (name, value) ∈ entries ↔ entries.lookup name = some value := by
  induction entries with
  | nil => simp
  | cons entry rest ih =>
    obtain ⟨key, kept⟩ := entry
    obtain ⟨new, tail⟩ := List.nodup_cons.1 once
    rw [List.mem_cons, ih tail, List.lookup_cons]
    by_cases eq : name = key
    · subst eq
      have absent : rest.lookup name ≠ some value := fun found =>
        new (List.mem_map_of_mem (f := (·.1)) ((ih tail).2 found))
      simp [absent, eq_comm]
    · simp [eq, beq_false_of_ne eq]

end Entries

namespace Catalog

instance [DecidableEq α] : DecidableEq (Catalog α) := fun a b =>
  decidable_of_iff (a.entries = b.entries)
    ⟨fun same => by cases a; cases b; simpa using same, congrArg entries⟩

variable {catalog : Catalog α} {name : String}

theorem names_ascending (catalog : Catalog α) : catalog.names.Pairwise (· < ·) :=
  List.pairwise_map.2 catalog.ascending

theorem nodup_names (catalog : Catalog α) : catalog.names.Nodup := by
  refine catalog.names_ascending.imp ?_
  intro a b lt eq
  exact String.lt_irrefl b (eq ▸ lt)

theorem names_eq_of_mem_iff {a b : Catalog α} (same : ∀ name, name ∈ a.names ↔ name ∈ b.names) :
    a.names = b.names :=
  a.names_ascending.eq_of_mem_iff b.names_ascending fun name => same name

theorem names_eq_filter {part whole : Catalog α} (within : ∀ name ∈ part.names, name ∈ whole.names) :
    part.names = whole.names.filter (· ∈ part.names) := by
  refine part.names_ascending.eq_of_mem_iff (whole.names_ascending.filter _) fun name => ?_
  rw [List.mem_filter, decide_eq_true_eq]
  exact ⟨fun mem => ⟨within name mem, mem⟩, And.right⟩

theorem mem_entries_iff {value : α} :
    (name, value) ∈ catalog.entries ↔ catalog.get? name = some value :=
  Entries.mem_iff_lookup catalog.nodup_names

theorem mem_names_iff : name ∈ catalog.names ↔ ∃ value, catalog.get? name = some value := by
  simp only [names, List.mem_map, ← mem_entries_iff]
  constructor
  · rintro ⟨⟨key, value⟩, mem, rfl⟩
    exact ⟨value, mem⟩
  · rintro ⟨value, mem⟩
    exact ⟨(name, value), mem, rfl⟩

theorem mem_values_flatten {catalog : Catalog (List α)} {item : α} :
    item ∈ catalog.values.flatten ↔
      ∃ name items, catalog.get? name = some items ∧ item ∈ items := by
  simp only [values, List.mem_flatten, List.mem_map, ← mem_entries_iff]
  constructor
  · rintro ⟨items, ⟨⟨name, _⟩, mem, rfl⟩, hitem⟩
    exact ⟨name, _, mem, hitem⟩
  · rintro ⟨name, items, mem, hitem⟩
    exact ⟨items, ⟨(name, items), mem, rfl⟩, hitem⟩

/-- A catalog does not remember in which order it was filled. -/
theorem ext_get? {a b : Catalog α} (h : ∀ name, a.get? name = b.get? name) : a = b := by
  have nodup (c : Catalog α) : c.entries.Nodup := List.Nodup.of_map _ c.nodup_names
  have perm : a.entries.Perm b.entries := by
    refine (List.perm_ext_iff_of_nodup (nodup a) (nodup b)).2 fun ⟨name, value⟩ => ?_
    rw [mem_entries_iff, mem_entries_iff, h]
  have eq : a.entries = b.entries := by
    refine perm.eq_of_pairwise (fun x y _ _ lt gt => ?_) a.ascending b.ascending
    exact absurd (String.lt_trans lt gt) (String.lt_irrefl _)
  cases a
  cases b
  simpa using eq

theorem get?_ofList {entries : List (String × α)} (once : (entries.map (·.1)).Nodup)
    (name : String) : (ofList entries).get? name = entries.lookup name := by
  suffices h : ∀ catalog : Catalog α,
      (entries.foldl (fun catalog entry => catalog.insert entry.1 entry.2) catalog).get? name =
        (entries.lookup name).or (catalog.get? name) by
    exact (h empty).trans (by simp [get?, empty])
  induction entries with
  | nil => simp
  | cons entry rest ih =>
    intro catalog
    obtain ⟨key, value⟩ := entry
    obtain ⟨new, tail⟩ := List.nodup_cons.1 once
    rw [List.foldl_cons, ih tail, get?_insert, List.lookup_cons]
    by_cases eq : name = key
    · subst eq
      have absent : rest.lookup name = none := by
        refine List.lookup_eq_none_iff.2 fun entry mem => bne_iff_ne.2 fun eq => ?_
        exact new (eq ▸ List.mem_map_of_mem (f := (·.1)) mem)
      simp [absent]
    · simp [eq, beq_false_of_ne eq]

theorem ofList_entries (catalog : Catalog α) : ofList catalog.entries = catalog :=
  ext_get? fun name => get?_ofList catalog.nodup_names name

theorem get?_ofList_map {β : Type} (f : α → β) (entries : List (String × α)) (name : String) :
    (ofList (entries.map fun entry => (entry.1, f entry.2))).get? name =
      ((ofList entries).get? name).map f := by
  suffices h : ∀ (catalog : Catalog α) (changed : Catalog β),
      (∀ name, changed.get? name = (catalog.get? name).map f) →
      ((entries.map fun entry => (entry.1, f entry.2)).foldl
          (fun catalog entry => catalog.insert entry.1 entry.2) changed).get? name =
        ((entries.foldl (fun catalog entry => catalog.insert entry.1 entry.2) catalog).get?
          name).map f by
    exact h empty empty fun _ => rfl
  induction entries with
  | nil => exact fun _ _ same => same name
  | cons entry rest ih =>
    intro catalog changed same
    rw [List.map_cons, List.foldl_cons, List.foldl_cons]
    apply ih
    intro other
    rw [get?_insert, get?_insert, same]
    split <;> rfl

theorem length_names (catalog : Catalog α) : catalog.names.length = catalog.size :=
  List.length_map _

theorem size_ofList {entries : List (String × α)} (once : (entries.map (·.1)).Nodup) :
    (ofList entries).size = entries.length := by
  have same : (ofList entries).names.Perm (entries.map (·.1)) :=
    (List.perm_ext_iff_of_nodup (nodup_names _) once).2 fun _ => mem_names_ofList
  rw [← length_names, same.length_eq, List.length_map]

end Catalog

end CoChange
