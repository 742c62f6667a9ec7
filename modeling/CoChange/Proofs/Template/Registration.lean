import CoChange.Overrides
import CoChange.Proofs.Template.Places

/-!
# Registering templates

A table is made by steps: a template for an extension, a template for extensions without any, or
overrides, which are many templates at once. Each step amounts to the mention of single templates,
and of these a table remembers, for every extension, the texts in the order in which they came
first, and of the templates for the rest the last one (`Records`). So the places of a table do not
show, and it can be looked up as if it kept the lists of texts themselves (`lookups_of_steps`).
-/

namespace CoChange

/-! ## Mentions -/

/-- A template as it is mentioned: for an extension, or for extensions without templates. -/
inductive Mention where
  | ofExtension (extension text : String)
  | ofRest (text : String)

namespace Mention

def text : Mention → String
  | .ofExtension _ text => text
  | .ofRest text => text

def enter (table : TemplateTable) : Mention → Except Fault TemplateTable
  | .ofExtension extension text => table.register extension text
  | .ofRest text => table.registerFallback text

end Mention

/-- The texts that are mentioned for an extension, in order. The dots in front of an extension do
not count. -/
def mentionedFor (extension : String) (mentions : List Mention) : List String :=
  mentions.filterMap fun
    | .ofExtension other text =>
      if extension = String.ofList (other.toList.dropWhile (· == '.')) then some text else none
    | .ofRest _ => none

theorem mentionedFor_ofExtension (extension other text : String) :
    mentionedFor extension [.ofExtension other text] =
      if extension = TemplateTable.bareExtension other then [text] else [] := by
  unfold mentionedFor TemplateTable.bareExtension
  rw [List.filterMap_cons, List.filterMap_nil]
  dsimp only
  by_cases same : extension = String.ofList (other.toList.dropWhile (· == '.'))
  · rw [if_pos same, if_pos same]
  · rw [if_neg same, if_neg same]

/-- The texts that are mentioned for extensions without templates, in order. -/
def mentionedForRest (mentions : List Mention) : List String :=
  mentions.filterMap fun
    | .ofExtension _ _ => none
    | .ofRest text => some text

/-- The extensions and texts of overrides, in the order in which they are registered. -/
def Overrides.pairs (overrides : Overrides) : List (String × String) :=
  overrides.entries.flatMap fun entry => entry.2.map fun text => (entry.1, text)

/-- A step that changes a table. -/
inductive Registration where
  | template (extension text : String)
  | fallback (text : String)
  | overrides (overrides : Overrides)

namespace Registration

def make (table : TemplateTable) : Registration → Except Fault TemplateTable
  | .template extension text => table.register extension text
  | .fallback text => table.registerFallback text
  | .overrides given => given.apply table

def mentions : Registration → List Mention
  | .template extension text => [.ofExtension extension text]
  | .fallback text => [.ofRest text]
  | .overrides given => given.pairs.map fun pair => .ofExtension pair.1 pair.2

end Registration

/-! ## Faults -/

open TemplateTable

variable {start table next : TemplateTable} {extension text : String} {fault : Fault}

theorem TemplateTable.register_eq_error_iff :
    table.register extension text = .error fault ↔
      '?' ∉ text.toList ∧ fault = .noPlaceholder text := by
  rw [← @intern_eq_error_iff table]
  unfold register
  cases table.intern text <;> simp [Except.map]

theorem TemplateTable.registerFallback_eq_error_iff :
    table.registerFallback text = .error fault ↔
      '?' ∉ text.toList ∧ fault = .noPlaceholder text := by
  rw [← @intern_eq_error_iff table]
  unfold registerFallback
  cases table.intern text <;> simp [Except.map]

/-! ## Overrides -/

namespace Overrides

theorem registerAll_eq (extension : String) (texts : List String) (table : TemplateTable) :
    registerAll extension texts table =
      (texts.map fun text => (extension, text)).foldlM
        (fun table pair => table.register pair.1 pair.2) table := by
  induction texts generalizing table with
  | nil => rfl
  | cons text rest ih =>
    rw [registerAll, List.map_cons, List.foldlM_cons]
    exact bind_congr fun table => ih table

theorem apply_eq (overrides : Overrides) (table : TemplateTable) :
    overrides.apply table =
      overrides.pairs.foldlM (fun table pair => table.register pair.1 pair.2) table := by
  unfold apply pairs
  generalize overrides.entries = entries
  induction entries generalizing table with
  | nil => rfl
  | cons entry rest ih =>
    obtain ⟨extension, texts⟩ := entry
    rw [registerEntries, List.flatMap_cons, List.foldlM_append, registerAll_eq]
    exact bind_congr fun table => ih table

end Overrides

theorem Registration.make_eq (table : TemplateTable) (step : Registration) :
    step.make table = step.mentions.foldlM Mention.enter table := by
  cases step with
  | template extension text =>
    exact (bind_pure (table.register extension text)).symm
  | fallback text =>
    exact (bind_pure (table.registerFallback text)).symm
  | overrides given =>
    rw [mentions, List.foldlM_map]
    exact given.apply_eq table

theorem Registration.foldlM_make_eq (steps : List Registration) (table : TemplateTable) :
    steps.foldlM Registration.make table =
      (steps.flatMap Registration.mentions).foldlM Mention.enter table := by
  induction steps generalizing table with
  | nil => rfl
  | cons step rest ih =>
    rw [List.foldlM_cons, List.flatMap_cons, List.foldlM_append, step.make_eq]
    exact bind_congr fun table => ih table

/-- Texts are registered one after the other until one writes no template. -/
theorem exists_error_foldlM_iff (pairs : List (String × String)) (table : TemplateTable) :
    (∃ fault, pairs.foldlM (fun table pair => table.register pair.1 pair.2) table =
      .error fault) ↔ ∃ pair ∈ pairs, '?' ∉ pair.2.toList := by
  induction pairs generalizing table with
  | nil => simp [pure, Except.pure]
  | cons pair rest ih =>
    rw [List.foldlM_cons]
    cases step : table.register pair.1 pair.2 with
    | error fault =>
      have unmarked := (register_eq_error_iff.1 step).1
      exact ⟨fun _ => ⟨pair, List.mem_cons_self, unmarked⟩, fun _ => ⟨fault, rfl⟩⟩
    | ok next =>
      have marked : ¬ '?' ∉ pair.2.toList := fun unmarked => by
        rw [register_eq_error_iff.2 ⟨unmarked, rfl⟩] at step
        cases step
      rw [List.exists_mem_cons_iff, or_iff_right marked]
      exact ih next

/-! ## What a table records -/

/-- A table that grew out of another one by mentions of templates. -/
structure Records (start table : TemplateTable) (mentions : List Mention) : Prop where
  texts : table.texts = (mentions.map Mention.text).foldl addOnce start.texts
  lists : ∀ extension, table.textsFor extension =
    (mentionedFor extension mentions).foldl addOnce (start.textsFor extension)
  fallback : table.defaultText? =
    (mentionedForRest mentions).getLast?.or start.defaultText?

namespace Records

theorem refl (table : TemplateTable) : Records table table [] :=
  ⟨rfl, fun _ => rfl, rfl⟩

theorem trans {earlier later : List Mention} (first : Records start table earlier)
    (second : Records table next later) : Records start next (earlier ++ later) := by
  refine ⟨?_, fun extension => ?_, ?_⟩
  · rw [second.texts, first.texts, List.map_append, List.foldl_append]
  · rw [second.lists, first.lists, mentionedFor, mentionedFor, mentionedFor,
      List.filterMap_append, List.foldl_append]
  · rw [second.fallback, first.fallback, mentionedForRest, mentionedForRest, mentionedForRest,
      List.filterMap_append, List.getLast?_append, Option.or_assoc]

end Records

theorem Mention.records_of_enter (sound : table.IsSound) {mention : Mention}
    (h : mention.enter table = .ok next) : next.IsSound ∧ Records table next [mention] := by
  cases mention with
  | ofExtension extension text =>
    obtain ⟨⟨place, listing⟩, found, rfl⟩ := Outcome.map_eq_ok_iff.1 h
    have interns := interns_of_eq found
    have listed := interns.isSound sound
    refine ⟨listed.refer interns.lt_length, interns.texts_eq, fun key => ?_, ?_⟩
    · show (listing.refer extension place).textsFor key = _
      rw [textsFor_refer listed interns.text_eq, interns.textsFor_eq sound,
        mentionedFor_ofExtension]
      by_cases same : key = bareExtension extension
      · rw [if_pos same, if_pos same]
        rfl
      · rw [if_neg same, if_neg same]
        rfl
    · exact interns.defaultText?_eq sound
  | ofRest text =>
    obtain ⟨⟨place, listing⟩, found, rfl⟩ := Outcome.map_eq_ok_iff.1 h
    have interns := interns_of_eq found
    have listed := interns.isSound sound
    refine ⟨listed.setFallback interns.lt_length, interns.texts_eq, fun key => ?_, ?_⟩
    · exact interns.textsFor_eq sound
    · rw [defaultText?_eq]
      exact interns.text_eq

theorem records_of_foldlM {mentions : List Mention} (sound : table.IsSound)
    (h : mentions.foldlM Mention.enter table = .ok next) :
    next.IsSound ∧ Records table next mentions := by
  induction mentions generalizing table with
  | nil =>
    cases h
    exact ⟨sound, .refl _⟩
  | cons mention rest ih =>
    rw [List.foldlM_cons] at h
    obtain ⟨middle, entered, h⟩ := Outcome.bind_eq_ok_iff.1 h
    obtain ⟨soundMiddle, first⟩ := mention.records_of_enter sound entered
    obtain ⟨soundNext, second⟩ := ih soundMiddle h
    exact ⟨soundNext, first.trans second⟩

/-- Items that are added once each come behind those that were there, in the order in which they
came first. -/
theorem foldl_addOnce (items old : List String) :
    items.foldl addOnce old = old ++ (items.filter (· ∉ old)).eraseDups := by
  induction items generalizing old with
  | nil => simp
  | cons item rest ih =>
    rw [List.foldl_cons, ih]
    unfold addOnce
    by_cases known : item ∈ old
    · rw [if_pos known, List.filter_cons_of_neg (by simpa using known)]
    · rw [if_neg known, List.filter_cons_of_pos (by simpa using known), List.eraseDups_cons,
        List.filter_filter, List.append_assoc, List.singleton_append]
      congr 4
      funext other
      by_cases same : other = item <;> simp [same]

/-! ## Overrides that were applied before -/

/-- A table that refers to a text from an extension. -/
def Refers (table : TemplateTable) (extension text : String) : Prop :=
  ∃ place ∈ table.placesOf (bareExtension extension),
    table.all.findIdx? (·.source == text) = some place

theorem Refers.register_eq (h : Refers table extension text) :
    table.register extension text = .ok table := by
  obtain ⟨place, listed, found⟩ := h
  have interned : table.intern text = .ok (place, table) := by
    unfold intern
    rw [found]
  have same : (table.refer extension place).byExtension = table.byExtension := by
    apply Catalog.ext_get?
    intro key
    rw [get?_refer]
    split
    · next eq =>
      rw [addOnce, if_pos listed, eq]
      unfold placesOf at listed ⊢
      cases known : table.byExtension.get? (bareExtension extension) with
      | none => rw [known] at listed; cases listed
      | some places => rfl
    · rfl
  unfold register
  rw [interned]
  show Except.ok { table with byExtension := (table.refer extension place).byExtension } = _
  rw [same]

theorem refers_of_register (h : table.register extension text = .ok next) :
    Refers next extension text := by
  obtain ⟨⟨place, listing⟩, found, rfl⟩ := Outcome.map_eq_ok_iff.1 h
  refine ⟨place, ?_, (interns_of_eq found).place_eq⟩
  show place ∈ (listing.refer extension place).placesOf _
  rw [placesOf_refer, if_pos rfl]
  exact mem_addOnce.2 (.inr rfl)

theorem Refers.of_register {other added : String} (h : Refers table extension text)
    (step : table.register other added = .ok next) : Refers next extension text := by
  obtain ⟨place, listed, found⟩ := h
  obtain ⟨⟨new, listing⟩, interned, rfl⟩ := Outcome.map_eq_ok_iff.1 step
  have interns := interns_of_eq interned
  refine ⟨place, ?_, ?_⟩
  · show place ∈ (listing.refer other new).placesOf _
    rw [placesOf_refer]
    split
    · next eq =>
      rw [← eq, interns.placesOf_eq]
      exact mem_addOnce.2 (.inl listed)
    · rw [interns.placesOf_eq]
      exact listed
  · show listing.all.findIdx? (·.source == text) = some place
    obtain ⟨more, eq⟩ := interns.all_prefix
    rw [← eq, List.findIdx?_append, found]
    rfl

theorem Refers.of_foldlM {pairs : List (String × String)} (h : Refers table extension text)
    (steps : pairs.foldlM (fun table pair => table.register pair.1 pair.2) table = .ok next) :
    Refers next extension text := by
  induction pairs generalizing table with
  | nil => cases steps; exact h
  | cons pair rest ih =>
    rw [List.foldlM_cons] at steps
    obtain ⟨middle, step, steps⟩ := Outcome.bind_eq_ok_iff.1 steps
    exact ih (h.of_register step) steps

theorem refers_of_foldlM {pairs : List (String × String)}
    (steps : pairs.foldlM (fun table pair => table.register pair.1 pair.2) table = .ok next) :
    ∀ pair ∈ pairs, Refers next pair.1 pair.2 := by
  induction pairs generalizing table with
  | nil => simp
  | cons pair rest ih =>
    rw [List.foldlM_cons] at steps
    obtain ⟨middle, step, steps⟩ := Outcome.bind_eq_ok_iff.1 steps
    rw [List.forall_mem_cons]
    exact ⟨(refers_of_register step).of_foldlM steps, ih steps⟩

theorem foldlM_register_eq {pairs : List (String × String)}
    (h : ∀ pair ∈ pairs, Refers table pair.1 pair.2) :
    pairs.foldlM (fun table pair => table.register pair.1 pair.2) table = .ok table := by
  induction pairs with
  | nil => rfl
  | cons pair rest ih =>
    rw [List.forall_mem_cons] at h
    rw [List.foldlM_cons, h.1.register_eq]
    exact ih h.2

/-- Overrides that were applied change nothing when they are applied again. -/
theorem Overrides.apply_of_apply {overrides : Overrides} (h : overrides.apply table = .ok next) :
    overrides.apply next = .ok next := by
  rw [apply_eq] at h ⊢
  exact foldlM_register_eq (refers_of_foldlM h)

/-! ## Tables made by steps -/

theorem isSound_empty : TemplateTable.empty.IsSound := by
  refine ⟨List.nodup_nil, ?_, ?_, ?_, ?_⟩ <;> intros <;> contradiction

theorem isSound_builtIn : TemplateTable.builtIn.IsSound := by
  have each : ∀ entry ∈ builtIn.byExtension.entries,
      entry.2 ≠ [] ∧ entry.2.Nodup ∧ ∀ place ∈ entry.2, place < builtIn.all.length := by
    decide +kernel
  have known {extension : String} {places : List Nat}
      (h : builtIn.byExtension.get? extension = some places) :=
    each _ (Catalog.mem_entries_iff.2 h)
  refine ⟨by decide +kernel, ?_, ?_, ?_, ?_⟩
  · exact fun _ _ h => (known h).1
  · exact fun _ _ h => (known h).2.1
  · exact fun _ _ h => (known h).2.2
  · intro place h
    cases h

theorem TemplateTable.forPath_of_extension {path : String}
    (named : Path.extension? path = some extension) :
    table.forPath path =
      if table.forExtension extension ≠ [] then .ok (table.forExtension extension)
      else
        match table.default? with
        | some template => .ok [template]
        | none => .error (.noTemplate path (some extension)) := by
  unfold forPath
  rw [named]
  dsimp only
  cases table.forExtension extension with
  | nil => rfl
  | cons template rest => rw [if_pos (List.cons_ne_nil _ _)]

theorem forPath_of_records {mentions : List Mention} (records : Records start table mentions)
    (bare : start.defaultText? = none) {path : String}
    (named : Path.extension? path = some extension) :
    if table.forExtension extension ≠ [] then
      table.forPath path = .ok (table.forExtension extension)
    else
      match (mentionedForRest mentions).getLast? with
      | some text => ∃ template, template.source = text ∧ table.forPath path = .ok [template]
      | none => table.forPath path = .error (.noTemplate path (some extension)) := by
  have last := records.fallback
  rw [bare, Option.or_none] at last
  rw [forPath_of_extension named, ← last]
  by_cases listed : table.forExtension extension ≠ []
  · rw [if_pos listed, if_pos listed]
  · rw [if_neg listed, if_neg listed]
    unfold defaultText?
    cases table.default? with
    | none => rfl
    | some template => exact ⟨template, rfl, rfl⟩

/-- **Places do not show.** After any steps that succeed, from the built-in table or from the empty
one, every template is listed once and every place is that of a template. An extension has the
templates of the table at the start and behind them those that were registered for it, in the order
in which they came first, and nothing else counts for it. A path with an extension gets these
templates, or if there are none the last template that was registered for the rest, or the fault
that there is no template. A template is refused exactly when it has no question mark, overrides
exactly when one of their templates is, and overrides that were applied change nothing when they
are applied again. -/
theorem lookups_of_steps {start table : TemplateTable} {steps : List Registration}
    (known : start = .builtIn ∨ start = .empty)
    (made : steps.foldlM Registration.make start = .ok table) :
    let mentions := steps.flatMap Registration.mentions
    table.IsSound ∧
    (∀ template ∈ table.all,
      template.source = template.opening ++ "?" ++ template.closing ∧
        '?' ∉ template.opening.toList) ∧
    (∀ extension,
      let before := (start.forExtension extension).map (·.source)
      (table.forExtension extension).map (·.source) =
        before ++ ((mentionedFor extension mentions).filter (· ∉ before)).eraseDups) ∧
    (∀ path extension, Path.extension? path = some extension →
      if table.forExtension extension ≠ [] then
        table.forPath path = .ok (table.forExtension extension)
      else
        match (mentionedForRest mentions).getLast? with
        | some text => ∃ template, template.source = text ∧ table.forPath path = .ok [template]
        | none => table.forPath path = .error (.noTemplate path (some extension))) ∧
    (∀ extension text fault, table.register extension text = .error fault ↔
      '?' ∉ text.toList ∧ fault = .noPlaceholder text) ∧
    (∀ text fault, table.registerFallback text = .error fault ↔
      '?' ∉ text.toList ∧ fault = .noPlaceholder text) ∧
    ∀ overrides : Overrides,
      ((∃ fault, overrides.apply table = .error fault) ↔
        ∃ entry ∈ overrides.entries, ∃ text ∈ entry.2, '?' ∉ text.toList) ∧
      ∀ next, overrides.apply table = .ok next → overrides.apply next = .ok next := by
  intro mentions
  have sound : start.IsSound := by
    rcases known with rfl | rfl
    · exact isSound_builtIn
    · exact isSound_empty
  have bare : start.defaultText? = none := by
    rcases known with rfl | rfl <;> rfl
  -- What the steps do is told by their mentions, one by one, whatever places these get.
  rw [Registration.foldlM_make_eq] at made
  obtain ⟨kept, records⟩ := records_of_foldlM sound made
  refine ⟨kept, ?_, ?_, ?_, ?_, ?_, ?_⟩
  · exact fun template _ => ⟨rfl, template.unmarked⟩
  · intro extension before
    exact (records.lists extension).trans (foldl_addOnce _ _)
  · intro path extension named
    exact forPath_of_records records bare named
  · exact fun extension text fault => register_eq_error_iff
  · exact fun text fault => registerFallback_eq_error_iff
  · intro overrides
    refine ⟨?_, fun next applied => Overrides.apply_of_apply applied⟩
    rw [overrides.apply_eq, exists_error_foldlM_iff]
    simp only [Overrides.pairs, List.mem_flatMap, List.mem_map]
    constructor
    · rintro ⟨_, ⟨entry, listed, text, written, rfl⟩, unmarked⟩
      exact ⟨entry, listed, text, written, unmarked⟩
    · rintro ⟨entry, listed, text, written, unmarked⟩
      exact ⟨_, ⟨entry, listed, text, written, rfl⟩, unmarked⟩

/-- A built-in template that is registered again stays in front, a new one counts for its extension
also behind dots, and a text that comes twice is listed once. -/
theorem lookups_of_steps_python :
    let steps : List Registration :=
      [.template "py" "%LINT.?", .fallback "#LINT.?", .template ".py" "#LINT.?",
        .template "..py" "&LINT.?", .overrides (.ofList [("py", ["%LINT.?", "?"])]),
        .fallback "%LINT.?"]
    ∃ table, steps.foldlM Registration.make .builtIn = .ok table ∧
      (table.forExtension "py").map (·.source) = ["#LINT.?", "%LINT.?", "&LINT.?", "?"] ∧
      ∃ template, template.source = "%LINT.?" ∧
        table.forPath "notes.txt" = .ok [template] := by
  intro steps
  have succeeds : (steps.foldlM Registration.make .builtIn).isOk = true := by decide +kernel
  cases made : steps.foldlM Registration.make .builtIn with
  | error fault => rw [made] at succeeds; cases succeeds
  | ok table =>
    obtain ⟨-, -, lists, paths, -⟩ := lookups_of_steps (.inl rfl) made
    refine ⟨table, rfl, (lists "py").trans (by decide +kernel), ?_⟩
    have unlisted : table.forExtension "txt" = [] := by
      have texts := lists "txt"
      exact List.map_eq_nil_iff.1 (texts.trans (by decide +kernel))
    have last : (mentionedForRest (steps.flatMap Registration.mentions)).getLast? =
        some "%LINT.?" := by
      decide +kernel
    have chosen := paths "notes.txt" "txt" (by decide +kernel)
    rw [if_neg (fun listed => listed unlisted), last] at chosen
    exact chosen

end CoChange
