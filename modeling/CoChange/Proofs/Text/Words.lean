import CoChange.Text.Blank
import Mathlib.Data.List.Basic

/-!
# Words with blanks between them

Trimming takes off the blanks around a text and nothing else (`trim_append_of_blank`,
`IsTight.trim_eq`), and leaves none (`isTight_trim`). Words that stand one behind the other, with
blanks between them, are read back from the text that they make up (`Spread.words_eq`).
-/

namespace CoChange.Text

/-- A text of blank characters. -/
abbrev IsBlankText (text : List Char) : Prop := ∀ c ∈ text, isBlank c = true

/-- Blank characters within a line. -/
structure IsGap (text : List Char) : Prop where
  blank : IsBlankText text
  oneLine : '\n' ∉ text

/-- Characters of which none is blank, at least one. -/
structure IsWord (text : List Char) : Prop where
  filled : text ≠ []
  solid : ∀ c ∈ text, isBlank c = false

theorem isGap_iff {text : List Char} :
    IsGap text ↔ text.all isBlank = true ∧ '\n' ∉ text := by
  rw [List.all_eq_true]
  exact ⟨fun h => ⟨h.blank, h.oneLine⟩, fun h => ⟨h.1, h.2⟩⟩

theorem isWord_iff {text : List Char} :
    IsWord text ↔ text ≠ [] ∧ text.all (! isBlank ·) = true := by
  simp only [List.all_eq_true, Bool.not_eq_true']
  exact ⟨fun h => ⟨h.filled, h.solid⟩, fun h => ⟨h.1, h.2⟩⟩

instance (text : List Char) : Decidable (IsGap text) := decidable_of_iff' _ isGap_iff

instance (text : List Char) : Decidable (IsWord text) := decidable_of_iff' _ isWord_iff

/-- A text without blank characters at its ends. -/
structure IsTight (text : List Char) : Prop where
  starts : ∀ c ∈ text.head?, isBlank c = false
  ends : ∀ c ∈ text.getLast?, isBlank c = false

/-- The texts that consist of the given pieces, with blanks between them. -/
inductive Spread : List (List Char) → List Char → Prop
  | one (piece : List Char) : Spread [piece] piece
  | more {piece gap text : List Char} {pieces : List (List Char)} (apart : gap ≠ [])
      (gaps : IsGap gap) (rest : Spread pieces text) :
      Spread (piece :: pieces) (piece ++ gap ++ text)

/-! ## Trimming -/

theorem trimStart_append_of_blank {before : List Char} (h : IsBlankText before)
    (text : List Char) : trimStart (before ++ text) = trimStart text :=
  List.dropWhile_append_of_pos h

theorem trimStart_of_blank {text : List Char} (h : IsBlankText text) : trimStart text = [] := by
  rw [← List.append_nil text, trimStart_append_of_blank h]
  rfl

theorem trimEnd_append_of_blank {after : List Char} (h : IsBlankText after) (text : List Char) :
    trimEnd (text ++ after) = trimEnd text := by
  unfold trimEnd
  rw [List.reverse_append, List.dropWhile_append_of_pos]
  intro c mem
  exact h c (List.mem_reverse.1 mem)

theorem trim_append_of_blank_left {before : List Char} (h : IsBlankText before)
    (text : List Char) : trim (before ++ text) = trim text := by
  unfold trim
  rw [trimStart_append_of_blank h]

theorem trim_append_of_blank {after : List Char} (h : IsBlankText after) (text : List Char) :
    trim (text ++ after) = trim text := by
  unfold trim
  by_cases blank : trimStart text = []
  · have nothing : trimStart (text ++ after) = [] := by
      unfold trimStart at blank ⊢
      rw [List.dropWhile_append, blank]
      exact trimStart_of_blank h
    rw [nothing, blank]
  · have kept : trimStart (text ++ after) = trimStart text ++ after := by
      unfold trimStart at blank ⊢
      rw [List.dropWhile_append, if_neg (mt List.isEmpty_iff.1 blank)]
    rw [kept, trimEnd_append_of_blank h]

theorem dropWhile_isBlank_of_head {text : List Char} (h : ∀ c ∈ text.head?, isBlank c = false) :
    text.dropWhile isBlank = text := by
  cases text with
  | nil => rfl
  | cons c text => exact List.dropWhile_cons_of_neg (by simp [h c rfl])

theorem trimEnd_of_ends {text : List Char} (ends : ∀ c ∈ text.getLast?, isBlank c = false) :
    trimEnd text = text := by
  rw [← List.head?_reverse] at ends
  unfold trimEnd
  rw [dropWhile_isBlank_of_head ends, List.reverse_reverse]

theorem IsTight.trim_eq {text : List Char} (h : IsTight text) : trim text = text := by
  unfold trim trimStart
  rw [dropWhile_isBlank_of_head h.starts, trimEnd_of_ends h.ends]

theorem exists_eq_trimEnd_append (text : List Char) :
    ∃ after, IsBlankText after ∧ text = trimEnd text ++ after := by
  refine ⟨(text.reverse.takeWhile isBlank).reverse, fun c mem => ?_, ?_⟩
  · exact List.all_eq_true.1 List.all_takeWhile c (List.mem_reverse.1 mem)
  · unfold trimEnd
    rw [← List.reverse_append, List.takeWhile_append_dropWhile, List.reverse_reverse]

theorem starts_trimStart (text : List Char) : ∀ c ∈ (trimStart text).head?, isBlank c = false := by
  intro c first
  have stops := List.head?_dropWhile_not isBlank text
  unfold trimStart at first
  rwa [Option.mem_def.1 first] at stops

theorem ends_trimEnd (text : List Char) : ∀ c ∈ (trimEnd text).getLast?, isBlank c = false := by
  unfold trimEnd
  rw [List.getLast?_reverse]
  exact starts_trimStart text.reverse

/-- Nothing is taken off the end beyond a character that is not blank. -/
theorem trimEnd_append {before : List Char} (ends : ∀ c ∈ before.getLast?, isBlank c = false)
    (after : List Char) : trimEnd (before ++ after) = before ++ trimEnd after := by
  obtain ⟨blanks, blank, eq⟩ := exists_eq_trimEnd_append after
  have kept : ∀ c ∈ (before ++ trimEnd after).getLast?, isBlank c = false := by
    intro c last
    by_cases empty : trimEnd after = []
    · rw [empty, List.append_nil] at last
      exact ends c last
    · rw [List.getLast?_append_of_ne_nil _ empty] at last
      exact ends_trimEnd after c last
  calc trimEnd (before ++ after)
    _ = trimEnd (before ++ trimEnd after ++ blanks) := by rw [List.append_assoc, ← eq]
    _ = before ++ trimEnd after := by
      rw [trimEnd_append_of_blank blank, trimEnd_of_ends kept]

theorem trimEnd_eq_self_iff {text : List Char} :
    trimEnd text = text ↔ ∀ c ∈ text.getLast?, isBlank c = false := by
  refine ⟨fun eq => ?_, trimEnd_of_ends⟩
  rw [← eq]
  exact ends_trimEnd text

theorem isTight_trim (text : List Char) : IsTight (trim text) := by
  refine ⟨fun c first => ?_, ends_trimEnd _⟩
  obtain ⟨after, -, eq⟩ := exists_eq_trimEnd_append (trimStart text)
  apply starts_trimStart text
  rw [eq]
  exact List.mem_head?_append_of_mem_head? first

theorem mem_of_mem_trim {c : Char} {text : List Char} (mem : c ∈ trim text) : c ∈ text := by
  obtain ⟨after, -, eq⟩ := exists_eq_trimEnd_append (trimStart text)
  have started : c ∈ trimStart text := by
    rw [eq]
    exact List.mem_append_left after mem
  exact (List.dropWhile_sublist isBlank).mem started

theorem IsWord.isTight {text : List Char} (h : IsWord text) : IsTight text :=
  ⟨fun c first => h.solid c (List.mem_of_mem_head? first),
    fun c last => h.solid c (List.mem_of_mem_getLast? last)⟩

theorem IsTight.append_append {before text after : List Char}
    (starts : ∀ c ∈ before.head?, isBlank c = false) (h : IsTight text)
    (filled : text ≠ []) (ends : ∀ c ∈ after.getLast?, isBlank c = false) :
    IsTight (before ++ text ++ after) := by
  constructor
  · intro c first
    cases before with
    | cons b before => exact starts c first
    | nil =>
      rw [List.nil_append, List.head?_append_of_ne_nil _ filled] at first
      exact h.starts c first
  · intro c last
    by_cases closed : after = []
    · rw [closed, List.append_nil, List.getLast?_append_of_ne_nil _ filled] at last
      exact h.ends c last
    · rw [List.getLast?_append_of_ne_nil _ closed] at last
      exact ends c last

/-! ## Words -/

theorem words_append_of_blank {gap : List Char} (h : IsBlankText gap) (text : List Char) :
    words (gap ++ text) = words text := by
  rw [← words_trimStart, trimStart_append_of_blank h, words_trimStart]

/-- A word ends at the first blank behind it, or with the text. -/
theorem words_append_of_word {word text : List Char} (h : IsWord word)
    (stop : text.head?.all isBlank = true) : words (word ++ text) = word :: words text := by
  obtain ⟨filled, solid⟩ := h
  induction word with
  | nil => exact absurd rfl filled
  | cons c word ih =>
    have inside : isBlank c = false := solid c List.mem_cons_self
    rw [List.cons_append, words, if_neg (by simp [inside])]
    cases word with
    | nil => rw [List.nil_append, if_pos stop]
    | cons d word =>
      have next : isBlank d = false := solid d (by simp)
      rw [if_neg (by simp [next]), ih (List.cons_ne_nil _ _)]
      · rfl
      · exact fun e mem => solid e (List.mem_cons_of_mem _ mem)

theorem spread_spaced (piece : List Char) (pieces : List (List Char)) :
    Spread (piece :: pieces) (piece ++ pieces.flatMap (' ' :: ·)) := by
  induction pieces generalizing piece with
  | nil =>
    rw [List.flatMap_nil, List.append_nil]
    exact .one piece
  | cons next pieces ih =>
    have apart : Spread (piece :: next :: pieces) (piece ++ [' '] ++ _) :=
      .more (by decide) (by decide) (ih next)
    simpa using apart

/-- Words with blanks between them are the words of the text. -/
theorem Spread.words_eq {pieces : List (List Char)} {text : List Char} (h : Spread pieces text)
    (each : ∀ piece ∈ pieces, IsWord piece) : words text = pieces := by
  induction h with
  | one piece =>
    have word := each piece (List.mem_singleton.2 rfl)
    have alone : words (piece ++ []) = [piece] := words_append_of_word word rfl
    rwa [List.append_nil] at alone
  | @more piece gap text pieces apart gaps rest ih =>
    have word := each piece List.mem_cons_self
    have stop : (gap ++ text).head?.all isBlank = true := by
      obtain ⟨c, gap, rfl⟩ := List.exists_cons_of_ne_nil apart
      exact gaps.blank c List.mem_cons_self
    rw [List.append_assoc, words_append_of_word word stop, words_append_of_blank gaps.blank,
      ih fun other mem => each other (List.mem_cons_of_mem _ mem)]

theorem Spread.isTight {pieces : List (List Char)} {text : List Char} (h : Spread pieces text)
    (each : ∀ piece ∈ pieces, IsWord piece) : text ≠ [] ∧ IsTight text := by
  induction h with
  | one piece =>
    have word := each piece (List.mem_singleton.2 rfl)
    exact ⟨word.filled, word.isTight⟩
  | @more piece gap text pieces apart gaps rest ih =>
    have word := each piece List.mem_cons_self
    obtain ⟨filled, tight⟩ := ih fun other mem => each other (List.mem_cons_of_mem _ mem)
    refine ⟨by simp [filled], fun c first => ?_, fun c last => ?_⟩
    · rw [List.append_assoc, List.head?_append_of_ne_nil _ word.filled] at first
      exact word.isTight.starts c first
    · rw [List.getLast?_append_of_ne_nil _ filled] at last
      exact tight.ends c last

theorem Spread.oneLine {pieces : List (List Char)} {text : List Char} (h : Spread pieces text)
    (each : ∀ piece ∈ pieces, '\n' ∉ piece) : '\n' ∉ text := by
  induction h with
  | one piece => exact each piece (List.mem_singleton.2 rfl)
  | more apart gaps rest ih =>
    simp only [List.mem_append, not_or]
    refine ⟨⟨each _ List.mem_cons_self, gaps.oneLine⟩, ih fun other mem => ?_⟩
    exact each other (List.mem_cons_of_mem _ mem)

end CoChange.Text
