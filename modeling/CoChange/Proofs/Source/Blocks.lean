import CoChange.Proofs.Directive.Inscription
import CoChange.Proofs.Directive.LineOrder
import CoChange.Proofs.Rule.Argument
import CoChange.Proofs.Rule.Pairs
import CoChange.Template.Table

/-!
# Blocks of a file, written and read back

A file is written as a row of lines that hold no directive and of blocks: an IF, further such
lines, and an END (`Item`). Whatever template of the list a directive uses and however its words
are spaced, reading the text gives one rule for each block, from the line of its IF to that of its
END, with the targets and the identifier that were written (`rules_of_textOf`).
-/

namespace CoChange.Source

/-- A guarded block as it is written with some of the given templates. -/
structure Block (templates : List Template) where
  targets : List Target
  id : Option String
  /-- The line of the IF. -/
  opening : List Char
  /-- The lines between the IF and the END. -/
  inside : List (List Char)
  /-- The line of the END. -/
  closing : List Char
  plain : ∀ target ∈ targets, target.IsPlain
  word : ∀ name ∈ id, Text.IsWord name.toList
  opens : Directive.Inscribed templates .ifWord (targets.map (·.written)) opening
  fillers : ∀ line ∈ inside, Directive.IsFiller templates line
  closes : Directive.Inscribed templates .endWord id.toList closing

/-- A line without a directive, or a guarded block. -/
inductive Item (templates : List Template) where
  | filler (line : List Char) (idle : Directive.IsFiller templates line)
  | guarded (block : Block templates)

variable {templates : List Template}

namespace Block

def lines (block : Block templates) : List (List Char) :=
  block.opening :: (block.inside ++ [block.closing])

/-- The lines from the IF, which has the given number, to the END. -/
def spanAt (block : Block templates) (number : Nat) : Span :=
  ⟨number, number + block.inside.length + 1⟩

end Block

def Item.lines : Item templates → List (List Char)
  | .filler line _ => [line]
  | .guarded block => block.lines

/-- The text of a row of items, the lines of which are joined by line feeds. -/
def textOf (items : List (Item templates)) : String :=
  String.ofList (['\n'].intercalate (items.flatMap Item.lines))

/-- The directives of items, the first line of which has the given number. -/
def directivesFrom (number : Nat) : List (Item templates) → List Directive
  | [] => []
  | .filler _ _ :: rest => directivesFrom (number + 1) rest
  | .guarded block :: rest =>
    ⟨.ifWord, block.targets.map (·.written), (block.spanAt number).first⟩ ::
      ⟨.endWord, block.id.toList, (block.spanAt number).last⟩ ::
        directivesFrom (number + block.lines.length) rest

/-- The rules of items, the first line of which has the given number. -/
def rulesFrom (file : String) (changed : List Span) (number : Nat) :
    List (Item templates) → List Rule
  | [] => []
  | .filler _ _ :: rest => rulesFrom file changed (number + 1) rest
  | .guarded block :: rest =>
    { file, span := block.spanAt number, targets := block.targets, id := block.id
      present := changed.any (·.meets (block.spanAt number)) } ::
        rulesFrom file changed (number + block.lines.length) rest

/-! ## Lines and directives -/

section

open Directive

variable {file : String} {number : Nat}

namespace Block

variable (block : Block templates)

theorem words_opening : ∀ argument ∈ block.targets.map (·.written),
    Text.IsWord argument.toList := by
  intro argument mem
  obtain ⟨target, listed, rfl⟩ := List.mem_map.1 mem
  exact (block.plain target listed).isWord_written

theorem words_closing : ∀ argument ∈ block.id.toList, Text.IsWord argument.toList := by
  intro argument mem
  exact block.word argument (Option.mem_toList.1 mem)

end Block

/-- Every line of an item stands on one line, and an empty one holds no directive. -/
theorem Item.oneLine (item : Item templates) :
    ∀ line ∈ item.lines, '\n' ∉ line ∧ (line = [] → body? templates line = none) := by
  have idle {line : List Char} (h : IsFiller templates line) :
      '\n' ∉ line ∧ (line = [] → body? templates line = none) :=
    ⟨h.oneLine, fun _ => List.findSome?_eq_none_iff.2 h.unmatched⟩
  intro line mem
  cases item with
  | filler other h =>
    rw [List.mem_singleton.1 mem]
    exact idle h
  | guarded block =>
    rcases List.mem_cons.1 mem with rfl | mem
    · have filled := block.opens.ne_nil block.words_opening
      exact ⟨block.opens.oneLine block.words_opening, fun empty => absurd empty filled⟩
    · rcases List.mem_append.1 mem with mem | mem
      · exact idle (block.fillers line mem)
      · rw [List.mem_singleton.1 mem]
        have filled := block.closes.ne_nil block.words_closing
        exact ⟨block.closes.oneLine block.words_closing, fun empty => absurd empty filled⟩

theorem ofLines_fillers_append {fillers lines : List (List Char)} {directives : List Directive}
    (h : ∀ line ∈ fillers, IsFiller templates line)
    (read : ofLines file templates (number + fillers.length) lines = .ok directives) :
    ofLines file templates number (fillers ++ lines) = .ok directives := by
  induction fillers generalizing number with
  | nil => exact read
  | cons line fillers ih =>
    have here : ofLine file templates number line = .ok none :=
      (h line List.mem_cons_self).ofLine_eq
    refine ofLines_cons_eq_ok_iff.2 ⟨none, directives, here, ?_, rfl⟩
    refine ih (fun other mem => h other (List.mem_cons_of_mem _ mem)) ?_
    rwa [Nat.add_right_comm, Nat.add_assoc]

theorem Block.ofLines_append (block : Block templates) {lines : List (List Char)}
    {directives : List Directive}
    (read : ofLines file templates (number + block.lines.length) lines = .ok directives) :
    ofLines file templates number (block.lines ++ lines) =
      .ok (⟨.ifWord, block.targets.map (·.written), (block.spanAt number).first⟩ ::
        ⟨.endWord, block.id.toList, (block.spanAt number).last⟩ :: directives) := by
  have opens : ofLine file templates number block.opening =
      .ok (some ⟨.ifWord, block.targets.map (·.written), number⟩) :=
    block.opens.ofLine_eq block.words_opening
  have closes : ofLine file templates (number + 1 + block.inside.length) block.closing =
      .ok (some ⟨.endWord, block.id.toList, number + 1 + block.inside.length⟩) :=
    block.closes.ofLine_eq block.words_closing
  have last : number + 1 + block.inside.length = (block.spanAt number).last :=
    Nat.add_right_comm number 1 block.inside.length
  have behind : number + 1 + block.inside.length + 1 = number + block.lines.length := by
    simp only [Block.lines, List.length_cons, List.length_append, List.length_nil]
    omega
  have cut : block.lines ++ lines =
      block.opening :: (block.inside ++ block.closing :: lines) := by
    simp only [Block.lines, List.cons_append, List.append_assoc, List.nil_append]
  rw [cut]
  refine ofLines_cons_eq_ok_iff.2 ⟨_, _, opens, ?_, rfl⟩
  refine ofLines_fillers_append block.fillers ?_
  refine ofLines_cons_eq_ok_iff.2 ⟨_, directives, closes, ?_, ?_⟩
  · rw [behind]
    exact read
  · rw [last]
    rfl

theorem ofLines_items (items : List (Item templates)) :
    ofLines file templates number (items.flatMap Item.lines) =
      .ok (directivesFrom number items) := by
  induction items generalizing number with
  | nil => rfl
  | cons item rest ih =>
    rw [List.flatMap_cons]
    cases item with
    | filler line idle =>
      exact ofLines_fillers_append (List.forall_mem_singleton.2 idle) ih
    | guarded block => exact block.ofLines_append ih

/-- The text of items is scanned to their directives. -/
theorem scan_textOf (items : List (Item templates)) :
    scan file templates (textOf items) = .ok (directivesFrom 1 items) := by
  have each : ∀ line ∈ items.flatMap Item.lines,
      '\n' ∉ line ∧ (line = [] → body? templates line = none) := by
    intro line mem
    obtain ⟨item, -, mem⟩ := List.mem_flatMap.1 mem
    exact item.oneLine line mem
  unfold scan textOf
  rw [String.toList_ofList, ofLines_lines_intercalate (fun line mem => (each line mem).1),
    ofLines_items]
  exact fun mem => (each [] mem).2 rfl

end

/-! ## Directives and rules -/

/-- The directives of items come in pairs, one for each block. -/
theorem pairs_items (file : String) (changed : List Span) (number : Nat)
    (items : List (Item templates)) :
    Rule.Pairs file changed (directivesFrom number items) (rulesFrom file changed number items) := by
  induction items generalizing number with
  | nil => exact .nil
  | cons item rest ih =>
    cases item with
    | filler line idle => exact ih _
    | guarded block =>
      have named := fun target mem => (block.plain target mem).isNamed
      exact .pair (Rule.readTargets_eq_ok_iff.2 ⟨named, rfl⟩) (Rule.readId_eq_ok_iff.2 rfl) (ih _)

/-- **Round trip.** The text of items is read as one rule for each block, in order: from the line
of the IF to that of the END, with the targets and the identifier that the block was written with,
and present when a changed span meets these lines. -/
theorem rules_of_textOf (file : String) (templates : List Template) (changed : List Span)
    (items : List (Item templates)) :
    (Directive.scan file templates (textOf items) >>= Rule.ofDirectives file changed) =
      .ok (rulesFrom file changed 1 items) := by
  refine Outcome.bind_eq_ok_iff.2 ⟨_, scan_textOf items, ?_⟩
  exact Rule.ofDirectives_eq_ok_iff.2 (pairs_items file changed 1 items)

open TemplateTable (slashes block)

/-- A block in comments of two kinds. The IF is indented and has blanks at its end. -/
def sampleBlock : Block [slashes, block] where
  targets := [⟨some "b.py", some "x"⟩]
  id := some "here"
  opening := ['\t'] ++ (block.opening.toList ++ "IF  b.py:x".toList ++ block.closing.toList) ++ [' ', '\r']
  inside := ["1;".toList]
  closing := [] ++ (slashes.opening.toList ++ "END here".toList ++ slashes.closing.toList) ++ []
  plain := by
    rw [List.forall_mem_singleton]
    refine ⟨?_, ?_, by decide⟩
    · rintro _ ⟨⟩
      decide
    · rintro _ ⟨⟩
      decide
  word := by
    rintro _ ⟨⟩
    decide
  opens := by
    have tight : block.IsTight := by decide
    have gap : Text.IsGap [' ', ' '] := by decide
    have spread : Text.Spread (Keyword.ifWord.text.toList :: ["b.py:x".toList]) "IF  b.py:x".toList :=
      .more (by decide) gap (.one _)
    exact .intro rfl tight (by decide) (by decide) spread
      (List.forall_mem_singleton.2 (by decide))
  fillers := by
    rw [List.forall_mem_singleton]
    exact ⟨by decide, by decide⟩
  closes := by
    have tight : slashes.IsTight := by decide
    have gap : Text.IsGap [' '] := by decide
    have spread : Text.Spread (Keyword.endWord.text.toList :: ["here".toList]) "END here".toList :=
      .more (by decide) gap (.one _)
    exact .intro rfl tight (by decide) (by decide) spread
      (List.forall_mem_nil _)

/-- The IF stands on the second line, and the last line is empty. -/
theorem rules_of_textOf_sampleBlock :
    let items : List (Item [slashes, block]) :=
      [.filler "0;".toList ⟨by decide, by decide⟩, .guarded sampleBlock,
        .filler [] ⟨by decide, by decide⟩]
    textOf items = "0;\n\t/*LINT.IF  b.py:x \r\n1;\n//LINT.END here\n" ∧
      (Directive.scan "a.c" [slashes, block] (textOf items) >>= Rule.ofDirectives "a.c" [⟨4, 4⟩]) =
        .ok [⟨"a.c", ⟨2, 4⟩, [⟨some "b.py", some "x"⟩], some "here", true⟩] :=
  ⟨by decide +revert, rules_of_textOf "a.c" [slashes, block] [⟨4, 4⟩] _⟩

end CoChange.Source
