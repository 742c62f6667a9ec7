import CoChange.Proofs.Text.Words
import CoChange.Text.Lines

/-!
# Lines of joined texts

Texts within a line, joined by line feeds, are the lines of the text that they make up, but for
blanks at their ends: a carriage return before a line feed falls away, and so does an empty last
line (`lines_append_feed`, `lines_of_oneLine`). The lines of two texts are those of the text that
they make up when the first one ends in a line feed (`lines_append`).
-/

namespace CoChange.Text

/-- A line without the carriage return at its end, if there is one. -/
def dropReturn : List Char → List Char
  | [] => []
  | ['\r'] => []
  | c :: rest => c :: dropReturn rest

theorem dropReturn_cons {c : Char} {line : List Char} (h : c = '\r' → line ≠ []) :
    dropReturn (c :: line) = c :: dropReturn line := by
  rw [dropReturn]
  rintro rfl rfl
  exact h rfl rfl

theorem dropReturn_append {ending : List Char} (filled : ending ≠ []) (text : List Char) :
    dropReturn (text ++ ending) = text ++ dropReturn ending := by
  induction text with
  | nil => rfl
  | cons c text ih =>
    have behind : text ++ ending ≠ [] := List.append_ne_nil_of_right_ne_nil text filled
    rw [List.cons_append, dropReturn_cons fun _ => behind, ih, List.cons_append]

theorem eq_dropReturn_append (line : List Char) :
    ∃ ending, line = dropReturn line ++ ending ∧ IsBlankText ending := by
  have none : IsBlankText [] := fun c mem => nomatch mem
  induction line with
  | nil => exact ⟨[], rfl, none⟩
  | cons c line ih =>
    by_cases ret : c = '\r' ∧ line = []
    · obtain ⟨rfl, rfl⟩ := ret
      refine ⟨['\r'], rfl, fun c mem => ?_⟩
      rw [List.mem_singleton.1 mem]
      decide
    · obtain ⟨ending, eq, blank⟩ := ih
      refine ⟨ending, ?_, blank⟩
      rw [dropReturn_cons (fun isReturn empty => ret ⟨isReturn, empty⟩), List.cons_append, ← eq]

theorem trim_dropReturn (line : List Char) : trim (dropReturn line) = trim line := by
  obtain ⟨ending, eq, blank⟩ := eq_dropReturn_append line
  calc trim (dropReturn line) = trim (dropReturn line ++ ending) := (trim_append_of_blank blank _).symm
    _ = trim line := by rw [← eq]

theorem lines_append_feed {line : List Char} (h : '\n' ∉ line) (rest : List Char) :
    lines (line ++ '\n' :: rest) = dropReturn line :: lines rest := by
  induction line with
  | nil => rfl
  | cons c line ih =>
    obtain ⟨feed, oneLine⟩ := List.ne_and_not_mem_of_not_mem_cons h
    by_cases ret : c = '\r' ∧ line = []
    · obtain ⟨rfl, rfl⟩ := ret
      rfl
    · have inner : c = '\r' → line ≠ [] := fun isReturn empty => ret ⟨isReturn, empty⟩
      rw [List.cons_append, lines_cons (Ne.symm feed), ih oneLine, dropReturn_cons inner]
      · rfl
      · -- A carriage return within the line is not followed by the feed.
        intro isReturn
        obtain ⟨d, line, rfl⟩ := List.exists_cons_of_ne_nil (inner isReturn)
        rw [List.cons_append, List.head?_cons, ne_eq, Option.some.injEq]
        exact fun eq => oneLine (eq ▸ List.mem_cons_self)

/-- A text that is empty or ends in a line feed shares no line with the text behind it. -/
theorem lines_append {text : List Char} (ends : ∀ c ∈ text.getLast?, c = '\n')
    (rest : List Char) : lines (text ++ rest) = lines text ++ lines rest := by
  by_cases empty : text = []
  · subst empty
    rfl
  · have last : text.getLast? = some '\n' := by
      have some := List.getLast?_eq_some_getLast empty
      rw [some, ends _ some]
    obtain ⟨line, more, rfl, oneLine⟩ := List.eq_append_cons_of_mem (List.mem_of_getLast? last)
    have shorter : more.length < (line ++ '\n' :: more).length := by
      rw [List.length_append, List.length_cons]
      omega
    have behind : ∀ c ∈ more.getLast?, c = '\n' := by
      intro c mem
      apply ends
      rw [List.getLast?_append, List.getLast?_cons, Option.mem_def.1 mem]
      rfl
    rw [List.append_assoc, List.cons_append, lines_append_feed oneLine, lines_append behind,
      lines_append_feed oneLine, List.cons_append]
termination_by text.length

theorem lines_of_oneLine {line : List Char} (h : '\n' ∉ line) :
    lines line = if line = [] then [] else [line] := by
  induction line with
  | nil => rfl
  | cons c line ih =>
    obtain ⟨feed, oneLine⟩ := List.ne_and_not_mem_of_not_mem_cons h
    rw [lines_cons (Ne.symm feed), ih oneLine]
    · by_cases empty : line = [] <;> simp [empty]
    · intro _ next
      exact oneLine (List.mem_of_mem_head? next)

theorem oneLine_of_mem_lines {text line : List Char} (mem : line ∈ lines text) : '\n' ∉ line := by
  fun_induction lines text generalizing line with
  | case1 => cases mem
  | case2 rest ih =>
    rcases List.mem_cons.1 mem with rfl | mem
    · exact List.not_mem_nil
    · exact ih mem
  | case3 rest ih =>
    rcases List.mem_cons.1 mem with rfl | mem
    · exact List.not_mem_nil
    · exact ih mem
  | case4 c rest feed ret ih =>
    rcases List.mem_cons.1 mem with rfl | mem
    · refine List.not_mem_cons_of_ne_of_not_mem (Ne.symm feed) ?_
      cases found : lines rest with
      | nil => exact List.not_mem_nil
      | cons first more => exact ih (by rw [found]; exact List.mem_cons_self)
    · exact ih (List.mem_of_mem_tail mem)

end CoChange.Text
