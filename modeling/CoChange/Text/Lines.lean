/-!
# Lines

A text is cut at line feeds. One carriage return directly before a line feed belongs to the line
ending. What follows the last line feed is a line of its own unless it is empty.
-/

namespace CoChange.Text

/-- The lines of a text, without their endings. -/
def lines : List Char → List (List Char)
  | [] => []
  | '\n' :: rest => [] :: lines rest
  | '\r' :: '\n' :: rest => [] :: lines rest
  | c :: rest => (c :: (lines rest).headD []) :: (lines rest).tail

@[simp] theorem lines_nil : lines [] = [] := rfl

@[simp] theorem lines_feed (rest : List Char) : lines ('\n' :: rest) = [] :: lines rest := rfl

@[simp] theorem lines_return_feed (rest : List Char) :
    lines ('\r' :: '\n' :: rest) = [] :: lines rest := rfl

/-- A character that ends no line is put in front of the first line that follows. -/
theorem lines_cons {c : Char} {rest : List Char} (feed : c ≠ '\n')
    (ret : c = '\r' → rest.head? ≠ some '\n') :
    lines (c :: rest) = (c :: (lines rest).headD []) :: (lines rest).tail := by
  rw [lines]
  · exact feed
  · rintro tail rfl rfl
    exact ret rfl rfl

theorem lines_eq_nil_iff {text : List Char} : lines text = [] ↔ text = [] := by
  fun_cases lines text <;> simp_all

end CoChange.Text
