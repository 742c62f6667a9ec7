import CoChange.Directive
import CoChange.Proofs.Text.Joined

/-!
# Directives written on lines

A directive is written on a line as the two ends of a template around the keyword and the
arguments, with blanks between the words and around the whole (`Inscribed`). It is read back from
the line, whatever the blanks are (`Inscribed.ofLine_eq`), and lines joined to a text are read as
if each stood on its own (`ofLines_lines_intercalate`).
-/

namespace CoChange

theorem Keyword.isWord (keyword : Keyword) : Text.IsWord keyword.text.toList := by
  cases keyword <;> decide

/-- A template within a line, with no blanks at its outer ends. -/
structure Template.IsTight (template : Template) : Prop where
  starts : ∀ c ∈ template.opening.toList.head?, Text.isBlank c = false
  ends : ∀ c ∈ template.closing.toList.getLast?, Text.isBlank c = false
  opening : '\n' ∉ template.opening.toList
  closing : '\n' ∉ template.closing.toList

theorem Template.isTight_iff {template : Template} :
    template.IsTight ↔
      (template.opening.toList.head?.all (! Text.isBlank ·) = true ∧
        template.closing.toList.getLast?.all (! Text.isBlank ·) = true) ∧
      '\n' ∉ template.opening.toList ∧ '\n' ∉ template.closing.toList := by
  simp only [Option.all_eq_true, Bool.not_eq_true']
  exact ⟨fun h => ⟨⟨h.starts, h.ends⟩, h.opening, h.closing⟩,
    fun h => ⟨h.1.1, h.1.2, h.2.1, h.2.2⟩⟩

instance (template : Template) : Decidable template.IsTight :=
  decidable_of_iff' _ Template.isTight_iff

namespace Directive

/-- A line that holds no directive. -/
structure IsFiller (templates : List Template) (line : List Char) : Prop where
  oneLine : '\n' ∉ line
  unmatched : ∀ template ∈ templates, template.body? (Text.trim line) = none

/-- A line with a directive: blanks, a template around the words with blanks between them, and
blanks again. No template that comes first in the list has both its ends on the line. -/
inductive Inscribed (templates : List Template) (keyword : Keyword) (arguments : List String) :
    List Char → Prop
  | intro {earlier later : List Template} {template : Template} {indent text trail : List Char}
      (listed : templates = earlier ++ template :: later) (tight : template.IsTight)
      (indented : Text.IsGap indent) (trailing : Text.IsGap trail)
      (spread : Text.Spread (keyword.text.toList :: arguments.map String.toList) text)
      (first : ∀ other ∈ earlier, other.body? (Text.trim (indent ++
        (template.opening.toList ++ text ++ template.closing.toList) ++ trail)) = none) :
      Inscribed templates keyword arguments
        (indent ++ (template.opening.toList ++ text ++ template.closing.toList) ++ trail)

variable {file : String} {templates : List Template} {number : Nat} {line : List Char}
  {lines : List (List Char)} {keyword : Keyword} {arguments : List String}

theorem words_isWord (keyword : Keyword)
    (each : ∀ argument ∈ arguments, Text.IsWord argument.toList) :
    ∀ word ∈ keyword.text.toList :: arguments.map String.toList, Text.IsWord word := by
  rw [List.forall_mem_cons]
  refine ⟨keyword.isWord, fun word mem => ?_⟩
  obtain ⟨argument, hargument, rfl⟩ := List.mem_map.1 mem
  exact each argument hargument

/-! ## Single lines -/

theorem ofWords_eq (file : String) (number : Nat) (keyword : Keyword) (arguments : List String) :
    ofWords file number (keyword.text :: arguments) = .ok ⟨keyword, arguments, number⟩ := by
  have known : Keyword.ofText? keyword.text = some keyword := Keyword.ofText?_eq_some_iff.2 rfl
  unfold ofWords
  rw [List.headD_cons, known]
  rfl

theorem ofLine_congr {other : List Char} (h : Text.trim line = Text.trim other) :
    ofLine file templates number line = ofLine file templates number other := by
  unfold ofLine body?
  rw [h]

theorem IsFiller.ofLine_eq (h : IsFiller templates line) :
    ofLine file templates number line = .ok none := by
  have nothing : body? templates line = none := List.findSome?_eq_none_iff.2 h.unmatched
  unfold ofLine
  rw [nothing]

namespace Inscribed

/-- The blanks around a directive are those that trimming takes off, so its words are what stands
inside the first template that the line has. -/
theorem body?_eq (h : Inscribed templates keyword arguments line)
    (each : ∀ argument ∈ arguments, Text.IsWord argument.toList) :
    ∃ text, body? templates line = some text ∧
      Text.words text = keyword.text.toList :: arguments.map String.toList := by
  obtain ⟨listed, tight, indented, trailing, spread, first⟩ := h
  have words := words_isWord keyword each
  obtain ⟨filled, inner⟩ := spread.isTight words
  have whole := Text.IsTight.append_append tight.starts inner filled tight.ends
  unfold body?
  rw [Text.trim_append_of_blank trailing.blank, Text.trim_append_of_blank_left indented.blank,
    whole.trim_eq] at first ⊢
  refine ⟨_, ?_, spread.words_eq words⟩
  rw [listed, List.findSome?_append, List.findSome?_eq_none_iff.2 first, Option.none_or,
    List.findSome?_cons, Template.body?_eq_some_iff.2 rfl]

/-- A directive is read back from the line that it is written on. -/
theorem ofLine_eq (h : Inscribed templates keyword arguments line)
    (each : ∀ argument ∈ arguments, Text.IsWord argument.toList) :
    ofLine file templates number line = .ok (some ⟨keyword, arguments, number⟩) := by
  obtain ⟨text, found, words⟩ := h.body?_eq each
  have texts : (Text.words text).map String.ofList = keyword.text :: arguments := by
    rw [words, List.map_cons, List.map_map, String.ofList_toList]
    congr 1
    exact List.map_id'' (fun argument => String.ofList_toList) arguments
  unfold ofLine
  rw [found]
  dsimp only
  rw [texts, ofWords_eq]
  rfl

theorem ne_nil (h : Inscribed templates keyword arguments line)
    (each : ∀ argument ∈ arguments, Text.IsWord argument.toList) : line ≠ [] := by
  obtain ⟨-, -, -, -, spread, -⟩ := h
  have filled := (spread.isTight (words_isWord keyword each)).1
  simp [filled]

theorem oneLine (h : Inscribed templates keyword arguments line)
    (each : ∀ argument ∈ arguments, Text.IsWord argument.toList) : '\n' ∉ line := by
  obtain ⟨-, tight, indented, trailing, spread, -⟩ := h
  have inner : '\n' ∉ _ := spread.oneLine fun word mem feed => by
    have solid := (words_isWord keyword each word mem).solid _ feed
    revert solid
    decide
  simp only [List.mem_append, not_or]
  exact ⟨⟨indented.oneLine, ⟨tight.opening, inner⟩, tight.closing⟩, trailing.oneLine⟩

end Inscribed

/-! ## Joined lines -/

/-- Joined lines are read as if each stood on its own, provided that an empty line holds no
directive: the text does not tell whether it ends with one. -/
theorem ofLines_lines_intercalate (oneLine : ∀ line ∈ lines, '\n' ∉ line)
    (empty : [] ∈ lines → body? templates [] = none) :
    ofLines file templates number (Text.lines (['\n'].intercalate lines)) =
      ofLines file templates number lines := by
  induction lines generalizing number with
  | nil => rfl
  | cons line rest ih =>
    have here := oneLine line List.mem_cons_self
    cases rest with
    | nil =>
      rw [List.intercalate_singleton, Text.lines_of_oneLine here]
      -- An empty last line leaves no line behind, so nothing may be lost with it.
      split
      · next vacant =>
        subst vacant
        have nothing : ofLine file templates number [] = .ok none := by
          unfold ofLine
          rw [empty List.mem_cons_self]
        unfold ofLines
        rw [nothing]
        rfl
      · rfl
    | cons next rest =>
      have behind : ofLines file templates (number + 1)
          (Text.lines (['\n'].intercalate (next :: rest))) =
            ofLines file templates (number + 1) (next :: rest) :=
        ih (fun other mem => oneLine other (List.mem_cons_of_mem _ mem))
          (fun mem => empty (List.mem_cons_of_mem _ mem))
      rw [List.intercalate_cons_cons, List.append_assoc, List.singleton_append,
        Text.lines_append_feed here, ofLines, behind, ofLine_congr (Text.trim_dropReturn line)]
      rfl

end Directive

end CoChange
