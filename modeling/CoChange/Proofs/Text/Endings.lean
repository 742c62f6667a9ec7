import CoChange.Proofs.Text.Joined

/-!
# Line endings

A text may be laid out anew: every line keeps what it holds and gets another ending, with something
put before and behind it (`Relaid`). If only blanks are put there, the trimmed lines stay the same
(`Relaid.map_trim_lines`), whatever the endings are. If nothing is put there, the lines themselves
stay the same, provided that the text has no carriage returns of its own (`Relaid.lines_eq`). To put
a carriage return before each line feed is to lay a text out anew (`relaid_withReturns`).
-/

namespace CoChange.Text

/-- What may end a line. -/
inductive Ending : List Char → Prop
  | feed : Ending ['\n']
  | returnFeed : Ending ['\r', '\n']

/-- Texts with the same lines, which have endings of their own in each and pads around them in the
second. A line without an ending is the last one, and holds something. -/
inductive Relaid (Pad : List Char → Prop) : List Char → List Char → Prop
  | nil : Relaid Pad [] []
  | last {line before after : List Char} (filled : line ≠ []) (oneLine : '\n' ∉ line)
      (left : Pad before) (right : Pad after) : Relaid Pad line (before ++ line ++ after)
  | line {line before after old new rest changed : List Char} (oneLine : '\n' ∉ line)
      (left : Pad before) (right : Pad after) (ends : Ending old) (endsNew : Ending new)
      (tail : Relaid Pad rest changed) :
      Relaid Pad (line ++ old ++ rest) (before ++ line ++ after ++ new ++ changed)

/-- A text with a carriage return before each line feed. -/
def withReturns (text : List Char) : List Char :=
  text.flatMap fun c => if c = '\n' then ['\r', '\n'] else [c]

variable {line rest text changed ending : List Char}

/-! ## Single lines -/

section

variable {before after : List Char} (left : IsGap before) (right : IsGap after)

include left right

theorem oneLine_padded (oneLine : '\n' ∉ line) : '\n' ∉ before ++ line ++ after := by
  simp only [List.mem_append, not_or]
  exact ⟨⟨left.oneLine, oneLine⟩, right.oneLine⟩

theorem trim_padded (line : List Char) : trim (before ++ line ++ after) = trim line := by
  rw [trim_append_of_blank right.blank, trim_append_of_blank_left left.blank]

end

theorem dropReturn_append_return (line : List Char) : dropReturn (line ++ ['\r']) = line := by
  rw [dropReturn_append (List.cons_ne_nil _ _)]
  exact List.append_nil line

theorem dropReturn_of_not_mem (h : '\r' ∉ line) : dropReturn line = line := by
  induction line with
  | nil => rfl
  | cons c line ih =>
    obtain ⟨other, behind⟩ := List.ne_and_not_mem_of_not_mem_cons h
    rw [dropReturn_cons fun eq => absurd eq.symm other, ih behind]

theorem lines_append_returnFeed (oneLine : '\n' ∉ line) (rest : List Char) :
    lines (line ++ ['\r', '\n'] ++ rest) = line :: lines rest := by
  have still : '\n' ∉ line ++ ['\r'] := by simpa using oneLine
  have ended : line ++ ['\r', '\n'] ++ rest = (line ++ ['\r']) ++ '\n' :: rest := by simp
  rw [ended, lines_append_feed still, dropReturn_append_return]

theorem map_trim_lines_append_ending (oneLine : '\n' ∉ line) (ends : Ending ending)
    (rest : List Char) :
    (lines (line ++ ending ++ rest)).map trim = trim line :: (lines rest).map trim := by
  cases ends with
  | feed =>
    rw [List.append_assoc, List.singleton_append, lines_append_feed oneLine, List.map_cons,
      trim_dropReturn]
  | returnFeed => rw [lines_append_returnFeed oneLine, List.map_cons]

theorem lines_append_ending (oneLine : '\n' ∉ line) (noReturn : '\r' ∉ line)
    (ends : Ending ending) (rest : List Char) :
    lines (line ++ ending ++ rest) = line :: lines rest := by
  cases ends with
  | feed =>
    rw [List.append_assoc, List.singleton_append, lines_append_feed oneLine,
      dropReturn_of_not_mem noReturn]
  | returnFeed => exact lines_append_returnFeed oneLine rest

/-! ## Whole texts -/

/-- Blanks around the lines and other endings leave the trimmed lines as they are. -/
theorem Relaid.map_trim_lines (h : Relaid IsGap text changed) :
    (lines changed).map trim = (lines text).map trim := by
  induction h with
  | nil => rfl
  | @last line before after filled oneLine left right =>
    have padded : before ++ line ++ after ≠ [] := by simp [filled]
    rw [lines_of_oneLine (oneLine_padded left right oneLine), if_neg padded,
      lines_of_oneLine oneLine, if_neg filled, List.map_singleton, List.map_singleton,
      trim_padded left right]
  | @line line before after old new rest changed oneLine left right ends endsNew tail ih =>
    rw [map_trim_lines_append_ending (oneLine_padded left right oneLine) endsNew,
      map_trim_lines_append_ending oneLine ends, trim_padded left right, ih]

/-- Other endings leave the lines of a text without carriage returns as they are. -/
theorem Relaid.lines_eq (h : Relaid (· = []) text changed) (noReturn : '\r' ∉ text) :
    lines changed = lines text := by
  induction h with
  | nil => rfl
  | last filled oneLine left right =>
    subst left right
    rw [List.nil_append, List.append_nil]
  | @line line before after old new rest changed oneLine left right ends endsNew tail ih =>
    subst left right
    simp only [List.mem_append, not_or] at noReturn
    obtain ⟨⟨here, -⟩, behind⟩ := noReturn
    rw [List.nil_append, List.append_nil, lines_append_ending oneLine here endsNew,
      lines_append_ending oneLine here ends, ih behind]

/-! ## Carriage returns before all line feeds -/

theorem withReturns_of_oneLine (h : '\n' ∉ line) : withReturns line = line := by
  have kept : ∀ c ∈ line, (if c = '\n' then ['\r', '\n'] else [c]) = [c] := by
    intro c mem
    apply if_neg
    rintro rfl
    exact h mem
  unfold withReturns
  rw [List.flatMap_congr kept, List.flatMap_singleton']

theorem withReturns_append_feed (h : '\n' ∉ line) (rest : List Char) :
    withReturns (line ++ '\n' :: rest) = line ++ ['\r', '\n'] ++ withReturns rest := by
  have here := withReturns_of_oneLine h
  unfold withReturns at here ⊢
  rw [List.flatMap_append, here, List.flatMap_cons, if_pos rfl, List.append_assoc]

theorem relaid_withReturns {Pad : List Char → Prop} (none : Pad []) (text : List Char) :
    Relaid Pad text (withReturns text) := by
  by_cases feed : '\n' ∈ text
  · obtain ⟨line, rest, eq, oneLine⟩ := List.eq_append_cons_of_mem feed
    have shorter : rest.length < text.length := by
      rw [eq, List.length_append, List.length_cons]
      omega
    have laid := Relaid.line oneLine none none .feed .returnFeed (relaid_withReturns none rest)
    rw [eq, withReturns_append_feed oneLine]
    simpa using laid
  · rw [withReturns_of_oneLine feed]
    by_cases empty : text = []
    · subst empty
      exact .nil
    · simpa using Relaid.last empty feed none none
termination_by text.length

end CoChange.Text
