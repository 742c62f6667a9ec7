import CoChange.Proofs.Catalog
import CoChange.Proofs.Directive.Held
import CoChange.Proofs.Path.Relocation
import CoChange.Proofs.Rule.Argument
import CoChange.Proofs.Source.Rules

/-!
# Files below another directory

A catalog is moved below a directory name by name and keeps its order (`Catalog.under`). Texts that
are stored under moved paths are found under the moved names (`get?_texts_under`), and the rules of
a moved file are those of the file, with another file (`rulesIn_under`): the templates go by the
extension, and directives do not tell the file that they are in.
-/

namespace CoChange

open CoChange.Path (IsInner)

/-! ## Catalogs -/

namespace Catalog

variable {α β : Type} {directory : String}

/-- The catalog with its names moved below a directory, and with changed values. -/
def under (directory : String) (f : α → β) (catalog : Catalog α) : Catalog β where
  entries := catalog.entries.map fun entry => (Path.under directory entry.1, f entry.2)
  ascending := by
    refine List.pairwise_map.2 (catalog.ascending.imp ?_)
    intro a b less
    exact Path.under_lt_under less

theorem names_under (directory : String) (f : α → β) (catalog : Catalog α) :
    (catalog.under directory f).names = catalog.names.map (Path.under directory) := by
  simp [names, under]

theorem values_under (directory : String) (f : α → β) (catalog : Catalog α) :
    (catalog.under directory f).values = catalog.values.map f := by
  simp [values, under]

theorem get?_under (f : α → β) (catalog : Catalog α) (name : String) :
    (catalog.under directory f).get? (Path.under directory name) = (catalog.get? name).map f := by
  show List.lookup _ (catalog.entries.map _) = (catalog.entries.lookup name).map f
  induction catalog.entries with
  | nil => rfl
  | cons entry rest ih =>
    rw [List.map_cons, List.lookup_cons, List.lookup_cons]
    by_cases eq : name = entry.1
    · simp [eq]
    · have ne : Path.under directory name ≠ Path.under directory entry.1 :=
        fun same => eq (Path.under_inj.1 same)
      simp [beq_false_of_ne eq, beq_false_of_ne ne, ih]

/-- Of values stored under two names each, the same one is found where the names agree. -/
theorem get?_ofList_congr {ι : Type} {items : List ι} (key other : ι → String) (value : ι → α)
    {name otherName : String} (same : ∀ item ∈ items, key item = name ↔ other item = otherName) :
    (ofList (items.map fun item => (key item, value item))).get? name =
      (ofList (items.map fun item => (other item, value item))).get? otherName := by
  suffices h : ∀ a b : Catalog α, a.get? name = b.get? otherName →
      ((items.map fun item => (key item, value item)).foldl
          (fun catalog entry => catalog.insert entry.1 entry.2) a).get? name =
        ((items.map fun item => (other item, value item)).foldl
          (fun catalog entry => catalog.insert entry.1 entry.2) b).get? otherName by
    exact h empty empty rfl
  induction items with
  | nil => exact fun a b eq => eq
  | cons item items ih =>
    intro a b eq
    rw [List.map_cons, List.map_cons, List.foldl_cons, List.foldl_cons]
    apply ih fun later mem => same later (List.mem_cons_of_mem _ mem)
    have here := same item List.mem_cons_self
    simp only [get?_insert, eq, eq_comm (a := name), eq_comm (a := otherName), here]

end Catalog

/-! ## Rules -/

namespace Rule

/-- The rule in the moved file. -/
def under (directory : String) (rule : Rule) : Rule :=
  { rule with file := Path.under directory rule.file }

theorem Pairs.under {directory file : String} {changed : List Span}
    {directives : List Directive} {rules : List Rule} (h : Pairs file changed directives rules) :
    Pairs (Path.under directory file) changed directives (rules.map (Rule.under directory)) := by
  induction h with
  | nil => exact .nil
  | pair named closed _ ih =>
    exact .pair (readTargets_eq_ok_iff.2 (readTargets_eq_ok_iff.1 named))
      (readId_eq_ok_iff.2 (readId_eq_ok_iff.1 closed)) ih

end Rule

/-! ## Files -/

variable {directory file : String} {table : TemplateTable}

theorem TemplateTable.ne_dot_of_forPath {templates : List Template}
    (h : table.forPath file = .ok templates) : file ≠ "." := by
  rintro rfl
  have none : Path.extension? "." = none := by decide
  unfold forPath at h
  rw [none] at h
  cases h

theorem TemplateTable.forPath_under (inner : IsInner file) {templates : List Template}
    (h : table.forPath file = .ok templates) :
    table.forPath (Path.under directory file) = .ok templates := by
  have ne := ne_dot_of_forPath h
  unfold forPath at h ⊢
  rw [Path.extension?_under inner ne]
  cases named : Path.extension? file with
  | none =>
    rw [named] at h
    cases h
  | some extension =>
    rw [named] at h
    dsimp only at h ⊢
    cases listed : table.forExtension extension with
    | cons first rest =>
      rw [listed] at h
      exact h
    | nil =>
      rw [listed] at h
      dsimp only at h ⊢
      cases default : table.default? with
      | none =>
        rw [default] at h
        cases h
      | some template =>
        rw [default] at h
        exact h

namespace Source

theorem normalize_under_eq_iff (inner : IsInner directory) (ne : directory ≠ ".") {path : String}
    (stored : IsInner (Path.normalize path)) (neFile : file ≠ ".") :
    Path.normalize (Path.under directory path) = Path.under directory file ↔
      Path.normalize path = file := by
  by_cases dot : Path.normalize path = "."
  · -- A path to the start is moved to the directory itself, where nothing else is moved.
    rw [dot, Path.normalize_under_dot inner ne dot]
    refine iff_of_false (fun eq => ?_) (Ne.symm neFile)
    have lengths := congrArg (·.toList.length) eq
    simp at lengths
  · rw [Path.normalize_under inner ne stored dot, Path.under_inj]

theorem get?_texts_under (inner : IsInner directory) (ne : directory ≠ ".")
    {texts : List (String × String)} (stored : ∀ entry ∈ texts, IsInner (Path.normalize entry.1))
    (neFile : file ≠ ".") :
    (ofTexts (texts.map fun entry => (Path.under directory entry.1, entry.2))).texts.get?
        (Path.under directory file) = (ofTexts texts).texts.get? file := by
  unfold ofTexts
  rw [List.map_map]
  refine Catalog.get?_ofList_congr
    (fun entry : String × String => Path.normalize (Path.under directory entry.1))
    (fun entry => Path.normalize entry.1) (fun entry => entry.2) fun entry mem => ?_
  exact normalize_under_eq_iff inner ne (stored entry mem) neFile

/-- A moved file with the same text has the same rules, but for the file that they are in. -/
theorem rulesIn_under {source moved : Source} {changed : List Span} {rules : List Rule}
    (inner : IsInner file)
    (text : moved.texts.get? (Path.under directory file) = source.texts.get? file)
    (h : source.rulesIn table changed file = .ok rules) :
    moved.rulesIn table changed (Path.under directory file) =
      .ok (rules.map (Rule.under directory)) := by
  obtain ⟨templates, found, directives, known, read, scanned, pairs⟩ := rulesIn_eq_ok_iff.1 h
  refine rulesIn_eq_ok_iff.2 ⟨templates, found, directives, ?_, ?_, ?_, pairs.under⟩
  · exact TemplateTable.forPath_under inner known
  · unfold Source.read at read ⊢
    rw [text]
    cases stored : source.texts.get? file with
    | none =>
      rw [stored] at read
      cases read
    | some kept =>
      rw [stored] at read
      exact read
  · exact Directive.ofLines_eq_ok_iff.2 (Directive.ofLines_eq_ok_iff.1 scanned)

end Source

end CoChange
