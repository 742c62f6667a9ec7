import CoChange.Proofs.Catalog
import CoChange.Proofs.Outcome
import CoChange.Template.Table

/-!
# Places of templates

A table refers to its templates by their places, and the places never go astray: whatever is
registered, every template is listed once, every place is that of a template, and no extension has
a place twice or an empty list (`IsSound`). So a look-up finds the texts that were registered, and
to put a place behind those of an extension is to put its text behind theirs
(`textsFor_refer`).
-/

namespace CoChange.TemplateTable

def texts (table : TemplateTable) : List String := table.all.map (·.source)

/-- The texts of the templates that are registered for an extension. -/
def textsFor (table : TemplateTable) (extension : String) : List String :=
  (table.forExtension extension).map (·.source)

def defaultText? (table : TemplateTable) : Option String := table.default?.map (·.source)

def placesOf (table : TemplateTable) (extension : String) : List Nat :=
  (table.byExtension.get? extension).getD []

/-- A table whose places are those of its templates. -/
structure IsSound (table : TemplateTable) : Prop where
  once : table.texts.Nodup
  filled : ∀ extension places, table.byExtension.get? extension = some places → places ≠ []
  distinct : ∀ extension places, table.byExtension.get? extension = some places → places.Nodup
  inRange : ∀ extension places, table.byExtension.get? extension = some places →
    ∀ place ∈ places, place < table.all.length
  fallback : ∀ place, table.fallback = some place → place < table.all.length

variable {table next : TemplateTable} {text extension : String} {place : Nat}

theorem textsFor_eq (table : TemplateTable) (extension : String) :
    table.textsFor extension = (table.placesOf extension).filterMap (table.texts[·]?) := by
  unfold textsFor forExtension placesOf texts
  rw [List.map_filterMap]
  simp only [List.getElem?_map]

theorem defaultText?_eq (table : TemplateTable) :
    table.defaultText? = table.fallback.bind (table.texts[·]?) := by
  unfold defaultText? default? texts
  rw [Option.map_bind]
  simp only [List.getElem?_map]
  rfl

theorem IsSound.placesOf_lt (sound : table.IsSound) :
    ∀ place ∈ table.placesOf extension, place < table.texts.length := by
  intro place h
  unfold placesOf at h
  unfold texts
  rw [List.length_map]
  cases known : table.byExtension.get? extension with
  | none => rw [known] at h; cases h
  | some places => rw [known] at h; exact sound.inRange extension places known place h

/-! ## Listing a template -/

/-- The outcomes of listing the template that a text writes: it is there, or it comes last. -/
inductive Interns (table : TemplateTable) (text : String) : Nat → TemplateTable → Prop
  | known {place : Nat} (found : table.all.findIdx? (·.source == text) = some place) :
      Interns table text place table
  | new {template : Template} (absent : table.all.findIdx? (·.source == text) = none)
      (written : text = template.source) :
      Interns table text table.all.length { table with all := table.all ++ [template] }

theorem interns_of_eq (h : table.intern text = .ok (place, next)) :
    Interns table text place next := by
  unfold intern at h
  split at h
  · next found =>
    cases h
    exact .known found
  · next absent =>
    obtain ⟨template, read, eq⟩ := Outcome.map_eq_ok_iff.1 h
    cases eq
    refine .new absent ?_
    unfold Template.read at read
    split at read
    · next written =>
      cases read
      exact Template.read?_eq_some_iff.1 written
    · cases read

theorem intern_eq_error_iff {fault : Fault} :
    table.intern text = .error fault ↔ '?' ∉ text.toList ∧ fault = .noPlaceholder text := by
  rw [← Template.read?_eq_none_iff]
  unfold intern
  split
  · next place found =>
    obtain ⟨bound, same, -⟩ := List.findIdx?_eq_some_iff_getElem.1 found
    have read := Template.read?_eq_some_iff.2 (beq_iff_eq.1 same).symm
    simp [read]
  · unfold Template.read
    cases Template.read? text with
    | none => simp [Except.map, eq_comm]
    | some template => simp [Except.map]

namespace Interns

theorem place_eq (h : Interns table text place next) :
    next.all.findIdx? (·.source == text) = some place := by
  cases h with
  | known found => exact found
  | new absent written =>
    rw [List.findIdx?_append, absent, written]
    simp

theorem text_eq (h : Interns table text place next) : next.texts[place]? = some text := by
  obtain ⟨bound, same, -⟩ := List.findIdx?_eq_some_iff_getElem.1 h.place_eq
  unfold texts
  rw [List.getElem?_map, List.getElem?_eq_getElem bound]
  exact congrArg some (beq_iff_eq.1 same)

theorem lt_length (h : Interns table text place next) : place < next.all.length := by
  obtain ⟨bound, -⟩ := List.findIdx?_eq_some_iff_getElem.1 h.place_eq
  exact bound

theorem texts_eq (h : Interns table text place next) : next.texts = addOnce table.texts text := by
  unfold texts addOnce
  cases h with
  | known found =>
    obtain ⟨bound, same, -⟩ := List.findIdx?_eq_some_iff_getElem.1 found
    rw [if_pos (List.mem_map.2 ⟨_, List.getElem_mem bound, beq_iff_eq.1 same⟩)]
  | new absent written =>
    rw [if_neg, List.map_append, List.map_singleton, ← written]
    intro mem
    obtain ⟨other, listed, same⟩ := List.mem_map.1 mem
    have differs := List.findIdx?_eq_none_iff.1 absent other listed
    exact absurd same (beq_eq_false_iff_ne.1 differs)

theorem all_prefix (h : Interns table text place next) : table.all <+: next.all := by
  cases h with
  | known found => exact List.prefix_rfl
  | new absent written => exact List.prefix_append _ _

theorem byExtension_eq (h : Interns table text place next) :
    next.byExtension = table.byExtension := by
  cases h <;> rfl

theorem fallback_eq (h : Interns table text place next) : next.fallback = table.fallback := by
  cases h <;> rfl

theorem placesOf_eq (h : Interns table text place next) :
    next.placesOf extension = table.placesOf extension := by
  unfold placesOf
  rw [h.byExtension_eq]

/-- The places of before stay those of the same texts. -/
theorem getElem?_texts (h : Interns table text place next) {old : Nat}
    (bound : old < table.texts.length) : next.texts[old]? = table.texts[old]? := by
  obtain ⟨more, eq⟩ := h.all_prefix
  unfold texts at bound ⊢
  rw [← eq, List.map_append, List.getElem?_append_left bound]

theorem textsFor_eq (h : Interns table text place next) (sound : table.IsSound) :
    next.textsFor extension = table.textsFor extension := by
  rw [TemplateTable.textsFor_eq, TemplateTable.textsFor_eq, h.placesOf_eq]
  apply List.filterMap_congr
  intro old hold
  exact h.getElem?_texts (sound.placesOf_lt old hold)

theorem defaultText?_eq (h : Interns table text place next) (sound : table.IsSound) :
    next.defaultText? = table.defaultText? := by
  rw [TemplateTable.defaultText?_eq, TemplateTable.defaultText?_eq, h.fallback_eq]
  cases known : table.fallback with
  | none => rfl
  | some old =>
    apply h.getElem?_texts
    unfold texts
    rw [List.length_map]
    exact sound.fallback old known

theorem isSound (h : Interns table text place next) (sound : table.IsSound) : next.IsSound := by
  have longer := h.all_prefix.length_le
  refine ⟨?_, ?_, ?_, ?_, ?_⟩
  · rw [h.texts_eq]
    exact nodup_addOnce sound.once text
  · rw [h.byExtension_eq]
    exact sound.filled
  · rw [h.byExtension_eq]
    exact sound.distinct
  · rw [h.byExtension_eq]
    intro extension places known old hold
    exact Nat.lt_of_lt_of_le (sound.inRange extension places known old hold) longer
  · rw [h.fallback_eq]
    intro old hold
    exact Nat.lt_of_lt_of_le (sound.fallback old hold) longer

end Interns

/-! ## Referring to a template -/

theorem get?_refer (table : TemplateTable) (extension key : String) (place : Nat) :
    (table.refer extension place).byExtension.get? key =
      if key = bareExtension extension then
        some (addOnce (table.placesOf (bareExtension extension)) place)
      else table.byExtension.get? key :=
  Catalog.get?_update ..

theorem placesOf_refer (table : TemplateTable) (extension key : String) (place : Nat) :
    (table.refer extension place).placesOf key =
      if key = bareExtension extension then
        addOnce (table.placesOf (bareExtension extension)) place
      else table.placesOf key := by
  unfold placesOf
  rw [get?_refer]
  split <;> rfl

theorem IsSound.nodup_placesOf (sound : table.IsSound) : (table.placesOf extension).Nodup := by
  unfold placesOf
  cases known : table.byExtension.get? extension with
  | none => exact List.nodup_nil
  | some places => exact sound.distinct extension places known

theorem filterMap_addOnce {texts : List String} (once : texts.Nodup) {places : List Nat}
    (bound : ∀ old ∈ places, old < texts.length) (found : texts[place]? = some text) :
    (addOnce places place).filterMap (texts[·]?) =
      addOnce (places.filterMap (texts[·]?)) text := by
  unfold addOnce
  by_cases old : place ∈ places
  · rw [if_pos old, if_pos (List.mem_filterMap.2 ⟨place, old, found⟩)]
  · rw [if_neg old, if_neg, List.filterMap_append]
    · simp [found]
    · intro mem
      obtain ⟨other, hother, eq⟩ := List.mem_filterMap.1 mem
      have same : other = place :=
        (List.getElem?_inj (bound other hother) once).1 (eq.trans found.symm)
      exact old (same ▸ hother)

/-- To refer to a template is to put its text behind those of the extension. -/
theorem textsFor_refer (sound : table.IsSound) (found : table.texts[place]? = some text)
    (key : String) :
    (table.refer extension place).textsFor key =
      if key = bareExtension extension then addOnce (table.textsFor key) text
      else table.textsFor key := by
  rw [textsFor_eq, textsFor_eq, placesOf_refer]
  by_cases same : key = bareExtension extension
  · subst same
    rw [if_pos rfl, if_pos rfl]
    exact filterMap_addOnce sound.once sound.placesOf_lt found
  · rw [if_neg same, if_neg same]
    rfl

theorem IsSound.refer (sound : table.IsSound) (bound : place < table.all.length) :
    (table.refer extension place).IsSound := by
  refine ⟨sound.once, ?_, ?_, ?_, sound.fallback⟩
  · intro key places h
    rw [get?_refer] at h
    split at h
    · cases h
      exact List.ne_nil_of_mem (mem_addOnce.2 (.inr rfl))
    · exact sound.filled key places h
  · intro key places h
    rw [get?_refer] at h
    split at h
    · cases h
      exact nodup_addOnce sound.nodup_placesOf place
    · exact sound.distinct key places h
  · intro key places h
    rw [get?_refer] at h
    split at h
    · cases h
      intro old hold
      rcases mem_addOnce.1 hold with hold | rfl
      · have := sound.placesOf_lt old hold
        rwa [texts, List.length_map] at this
      · exact bound
    · exact sound.inRange key places h

theorem IsSound.setFallback (sound : table.IsSound) (bound : place < table.all.length) :
    IsSound { table with fallback := some place } := by
  refine ⟨sound.once, sound.filled, sound.distinct, sound.inRange, ?_⟩
  intro other h
  cases h
  exact bound

end CoChange.TemplateTable
