import CoChange.Hunk
import CoChange.Proofs.Catalog
import Mathlib.Data.List.Dedup

/-!
# The files that hunks change

Hunks are grouped under the files that they name, each file once.
-/

namespace CoChange.Changes

variable {hunks : List Hunk} {file : String}

theorem mem_names_ofHunks : file ∈ (ofHunks hunks).names ↔ file ∈ hunks.map (·.file) := by
  induction hunks with
  | nil => rfl
  | cons hunk rest ih =>
    change file ∈ (add hunk (ofHunks rest)).names ↔ _
    rw [List.map_cons, List.mem_cons, ← ih]
    exact Entries.mem_names_update

theorem names_ofHunks_congr {others : List Hunk}
    (same : ∀ file, file ∈ hunks.map (·.file) ↔ file ∈ others.map (·.file)) :
    (ofHunks hunks).names = (ofHunks others).names := by
  refine Catalog.names_eq_of_mem_iff fun file => ?_
  rw [mem_names_ofHunks, mem_names_ofHunks]
  exact same file

theorem size_ofHunks (hunks : List Hunk) :
    (ofHunks hunks).size = (hunks.map (·.file)).dedup.length := by
  have same : (ofHunks hunks).names.Perm (hunks.map (·.file)).dedup := by
    refine (List.perm_ext_iff_of_nodup (Catalog.nodup_names _) (List.nodup_dedup _)).2 ?_
    intro file
    rw [mem_names_ofHunks, List.mem_dedup]
  rw [← same.length_eq, Catalog.names, List.length_map]
  rfl

theorem mem_spansOf_ofHunks {span : Span} :
    span ∈ (ofHunks hunks).spansOf file ↔ ∃ hunk ∈ hunks, hunk.file = file ∧ hunk.span = span := by
  rw [spansOf_ofHunks, List.mem_map]
  simp only [List.mem_filter, decide_eq_true_eq, and_assoc]

end CoChange.Changes
