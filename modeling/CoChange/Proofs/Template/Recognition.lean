import CoChange.Proofs.Source.Order
import CoChange.Proofs.Template.Registration

/-!
# What one more template changes

A template that is registered for an extension comes behind those that the extension has
(`TemplateTable.forExtension_of_register`), and the first template that a line has counts. So the
lines that had a template keep it, and the words in it: of the directives found with the new
template those found without it are the ones on the lines that had a template before
(`Directive.ofLines_of_append`, `scan_of_register`).
-/

namespace CoChange

/-! ## Lines -/

namespace Directive

open TemplateTable (addOnce)

variable {file : String} {templates more : List Template} {number n : Nat} {line : List Char}
  {lines : List (List Char)} {directives : List Directive}

/-- The first template that a line has is found among the first templates, if it is one of them. -/
theorem body?_append (templates more : List Template) (line : List Char) :
    body? (templates ++ more) line = (body? templates line).or (body? more line) :=
  List.findSome?_append

theorem mem_heldLines_iff (mem : (line, n) ∈ lines.zipIdx number) :
    n ∈ heldLines templates number lines ↔ (body? templates line).isSome = true := by
  unfold heldLines
  simp only [List.mem_map, List.mem_filter, Prod.exists]
  constructor
  · rintro ⟨other, _, ⟨there, held⟩, rfl⟩
    -- A number stands with a single line.
    rw [List.mk_mem_zipIdx_iff_le_and_getElem?_sub] at mem there
    rwa [Option.some.inj (mem.2.symm.trans there.2)]
  · intro held
    exact ⟨line, n, ⟨mem, held⟩, rfl⟩

theorem mem_heldLines_append_iff :
    n ∈ heldLines (templates ++ more) number lines ↔
      n ∈ heldLines templates number lines ∨ n ∈ heldLines more number lines := by
  unfold heldLines
  simp only [List.mem_map, List.mem_filter, Prod.exists, body?_append, Option.isSome_or,
    Bool.or_eq_true, and_or_left, or_and_right, exists_or]

theorem heldWords_eq_filter (templates more : List Template) (number : Nat)
    (lines : List (List Char)) :
    heldWords templates number lines = (heldWords (templates ++ more) number lines).filter
      fun held => held.1 ∈ heldLines templates number lines := by
  unfold heldWords
  rw [List.filter_filterMap]
  apply List.filterMap_congr
  rintro ⟨line, n⟩ mem
  have here := @mem_heldLines_iff templates _ _ _ _ mem
  dsimp only
  rw [body?_append]
  cases found : body? templates line with
  | none =>
    rw [found] at here
    have dropped : n ∉ heldLines templates number lines := fun held => nomatch here.1 held
    cases body? more line with
    | none => rfl
    | some body => simp [Option.filter, dropped]
  | some body =>
    rw [found] at here
    have kept : n ∈ heldLines templates number lines := here.2 rfl
    simp [Option.filter, kept]

/-- Directives are found with the first templates if they are found with more behind them, and are
those on the lines that have one of the first. -/
theorem ofLines_of_append (h : ofLines file (templates ++ more) number lines = .ok directives) :
    ofLines file templates number lines =
      .ok (directives.filter fun directive =>
        directive.line ∈ heldLines templates number lines) := by
  rw [ofLines_eq_ok_iff] at h ⊢
  rw [heldWords_eq_filter templates more, h, List.filter_map]
  rfl

/-- A line of a text, counted from one, has the template `added` but none of the others. -/
def OnlyHas (added : Template) (others : List Template) (text : String) (n : Nat) : Prop :=
  n ∉ heldLines others 1 (Text.lines text.toList) ∧ n ∈ heldLines [added] 1 (Text.lines text.toList)

instance (added : Template) (others : List Template) (text : String) :
    DecidablePred (OnlyHas added others text) :=
  fun _ => inferInstanceAs (Decidable (_ ∧ _))

theorem scan_of_addOnce {added : Template} {text : String}
    (h : scan file (addOnce templates added) text = .ok directives) :
    scan file templates text =
      .ok (directives.filter fun directive => ¬ OnlyHas added templates text directive.line) := by
  have held {directive : Directive} (mem : directive ∈ directives) :
      directive.line ∈ heldLines (addOnce templates added) 1 (Text.lines text.toList) :=
    map_line_eq h ▸ List.mem_map_of_mem mem
  unfold addOnce at h held
  split at h
  · next known =>
    rw [if_pos known] at held
    have all : ∀ directive ∈ directives, ¬ OnlyHas added templates text directive.line :=
      fun directive mem only => only.1 (held mem)
    rw [h, List.filter_eq_self.2 fun directive mem => decide_eq_true (all directive mem)]
  · next unknown =>
    rw [if_neg unknown] at held
    unfold scan at h ⊢
    rw [ofLines_of_append h]
    congr 1
    refine List.filter_congr fun directive mem => decide_eq_decide.2 ?_
    constructor
    · exact fun first only => only.1 first
    · intro notOnly
      by_contra none
      exact notOnly ⟨none, (mem_heldLines_append_iff.1 (held mem)).resolve_left none⟩

end Directive

/-! ## Tables -/

namespace TemplateTable

variable {table next : TemplateTable} {extension text : String}

theorem isSound_of_steps {start : TemplateTable} {steps : List Registration}
    (known : start = .builtIn ∨ start = .empty)
    (made : steps.foldlM Registration.make start = .ok table) : table.IsSound := by
  rw [Registration.foldlM_make_eq] at made
  rcases known with rfl | rfl
  · exact (records_of_foldlM isSound_builtIn made).1
  · exact (records_of_foldlM isSound_empty made).1

theorem map_addOnce {α β : Type} [DecidableEq α] [DecidableEq β] {f : α → β}
    (injective : Function.Injective f) (items : List α) (item : α) :
    (addOnce items item).map f = addOnce (items.map f) (f item) := by
  unfold addOnce
  by_cases known : item ∈ items
  · rw [if_pos known, if_pos (List.mem_map_of_mem known)]
  · have unknown : f item ∉ items.map f := mt (List.mem_map_of_injective injective).1 known
    rw [if_neg known, if_neg unknown, List.map_append, List.map_singleton]

theorem eq_of_map_source_eq {templates others : List Template}
    (same : templates.map (·.source) = others.map (·.source)) : templates = others :=
  List.map_injective_iff.2 (fun _ _ => Template.source_injective) same

/-- To register a template for an extension is to put it behind those of the extension, unless it is
among them, and to change nothing for other extensions. -/
theorem forExtension_of_register (sound : table.IsSound)
    (registered : table.register extension text = .ok next) :
    ∃ added : Template, added.source = text ∧
      next.forExtension (bareExtension extension) =
        addOnce (table.forExtension (bareExtension extension)) added ∧
      (∀ key, key ≠ bareExtension extension → next.forExtension key = table.forExtension key) ∧
      next.default? = table.default? := by
  have entered : (Mention.ofExtension extension text).enter table = .ok next := registered
  obtain ⟨-, records⟩ := Mention.records_of_enter sound entered
  have marked : Template.read? text ≠ none := by
    intro unmarked
    have refused : table.register extension text = .error (.noPlaceholder text) :=
      register_eq_error_iff.2 ⟨Template.read?_eq_none_iff.1 unmarked, rfl⟩
    rw [registered] at refused
    cases refused
  obtain ⟨added, written⟩ := Option.ne_none_iff_exists'.1 marked
  obtain rfl := Template.read?_eq_some_iff.1 written
  refine ⟨added, rfl, ?_, fun key other => ?_, ?_⟩
  · have texts := records.lists (bareExtension extension)
    rw [mentionedFor_ofExtension, if_pos rfl] at texts
    refine eq_of_map_source_eq (texts.trans ?_)
    exact (map_addOnce (fun _ _ => Template.source_injective) _ added).symm
  · have texts := records.lists key
    rw [mentionedFor_ofExtension, if_neg other] at texts
    exact eq_of_map_source_eq texts
  · exact Option.map_injective (fun _ _ => Template.source_injective) records.fallback

theorem forPath_of_forExtension_eq {path : String}
    (same : ∀ key, Path.extension? path = some key → next.forExtension key = table.forExtension key)
    (fallback : next.default? = table.default?) : next.forPath path = table.forPath path := by
  unfold forPath
  cases named : Path.extension? path with
  | none => rfl
  | some key =>
    dsimp only
    rw [same key named, fallback]

end TemplateTable

open TemplateTable
open Directive (OnlyHas)

/-- **A new template hides nothing.** Let a table be made by any steps from the built-in table or
from the empty one, and let a template be registered for an extension that has templates already.
In a file with this extension, whenever scanning with the new table succeeds, it succeeds with the
old one. Of the directives found with the new table, those found with the old one are all but the
ones on lines that have the new template and none of the old ones. A path with another extension,
or without any, gets the same templates from both tables, or the same fault. -/
theorem scan_of_register {start table next : TemplateTable} {steps : List Registration}
    {extension text : String} (known : start = .builtIn ∨ start = .empty)
    (made : steps.foldlM Registration.make start = .ok table)
    (registered : table.register extension text = .ok next) :
    let key := bareExtension extension
    (table.forExtension key ≠ [] → ∀ path, Path.extension? path = some key →
      ∃ templates wider added, table.forPath path = .ok templates ∧
        next.forPath path = .ok wider ∧ added.source = text ∧
        templates = table.forExtension key ∧
        ∀ contents directives, Directive.scan path wider contents = .ok directives →
          Directive.scan path templates contents = .ok (directives.filter fun directive =>
            ¬ OnlyHas added templates contents directive.line)) ∧
    ∀ path, Path.extension? path ≠ some key → next.forPath path = table.forPath path := by
  intro key
  have sound := isSound_of_steps known made
  obtain ⟨added, written, grown, others, fallback⟩ := forExtension_of_register sound registered
  constructor
  · intro listed path named
    have listedNext : next.forExtension key ≠ [] := by
      obtain ⟨first, mem⟩ := List.exists_mem_of_ne_nil _ listed
      rw [grown]
      exact List.ne_nil_of_mem (mem_addOnce.2 (.inl mem))
    refine ⟨table.forExtension key, next.forExtension key, added, ?_, ?_, written, rfl, ?_⟩
    · rw [forPath_of_extension named, if_pos listed]
    · rw [forPath_of_extension named, if_pos listedNext]
    · exact fun contents directives scanned => Directive.scan_of_addOnce (grown ▸ scanned)
  · intro path other
    refine forPath_of_forExtension_eq (fun found named => others found ?_) fallback
    rintro rfl
    exact other named

/-- A template of a single mark also fits the lines of the built-in one, but those keep their words:
with the built-in one alone, only the lines that have no more than the mark are lost. -/
theorem scan_of_register_mark :
    let steps : List Registration := [.fallback "%LINT.?"]
    let contents := "#LINT.IF a\n#IF b\n#END\n#LINT.END\n"
    ∃ table next templates wider,
      steps.foldlM Registration.make .builtIn = .ok table ∧
      table.register ".py" "#?" = .ok next ∧ table.forExtension "py" ≠ [] ∧
      table.forPath "a.py" = .ok templates ∧ next.forPath "a.py" = .ok wider ∧
      Directive.scan "a.py" wider contents =
        .ok [⟨.ifWord, ["a"], 1⟩, ⟨.ifWord, ["b"], 2⟩, ⟨.endWord, [], 3⟩, ⟨.endWord, [], 4⟩] ∧
      Directive.scan "a.py" templates contents = .ok [⟨.ifWord, ["a"], 1⟩, ⟨.endWord, [], 4⟩] ∧
      next.forPath "a.md" = table.forPath "a.md" := by
  intro steps contents
  let mark : Template := ⟨"#", "", by decide⟩
  have lists : ((steps.foldlM Registration.make .builtIn).toOption.map fun table =>
      (table.forExtension "py", (table.register ".py" "#?").toOption.map (·.forExtension "py"))) =
      some ([hash], some [hash, mark]) := by
    decide +kernel
  obtain ⟨table, made, both⟩ := Option.map_eq_some_iff.1 lists
  rw [Prod.mk.injEq, Option.map_eq_some_iff] at both
  obtain ⟨first, next, registered, second⟩ := both
  replace made := Outcome.eq_ok_of_toOption made
  replace registered := Outcome.eq_ok_of_toOption registered
  have listed : table.forExtension "py" ≠ [] := by simp [first]
  have named : Path.extension? "a.py" = some "py" := by decide +kernel
  obtain ⟨within, beyond⟩ := scan_of_register (.inl rfl) made registered
  have bare : bareExtension ".py" = "py" := by decide +kernel
  rw [bare] at within beyond
  obtain ⟨templates, wider, added, old, new, written, rfl, kept⟩ := within listed "a.py" named
  have found : Directive.scan "a.py" wider contents =
      .ok [⟨.ifWord, ["a"], 1⟩, ⟨.ifWord, ["b"], 2⟩, ⟨.endWord, [], 3⟩, ⟨.endWord, [], 4⟩] := by
    rw [forPath_of_extension named, second] at new
    obtain rfl := Except.ok.inj new
    exact Outcome.eq_ok_of_toOption (by decide +kernel)
  refine ⟨table, next, _, wider, made, registered, listed, old, new, found, ?_, ?_⟩
  · obtain rfl : added = mark := Template.source_injective (written.trans (by decide +kernel))
    rw [kept contents _ found, first]
    decide +kernel
  · exact beyond "a.md" (by decide +kernel)

end CoChange
