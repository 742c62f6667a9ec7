import CoChange.Fault
import CoChange.Text.Cut

/-!
# Templates

A template is the comment around a directive, written with a question mark in the directive's
place. It splits at the first question mark, so its text is determined by what stands before and
after, and determines both.
-/

namespace CoChange

/-- The text before and after a directive. -/
structure Template where
  opening : String
  closing : String
  unmarked : '?' ∉ opening.toList := by decide
deriving DecidableEq, Repr

namespace Template

def source (template : Template) : String := template.opening ++ "?" ++ template.closing

/-- The template that a text writes. -/
def read? (text : String) : Option Template :=
  match h : Text.cutFirst? '?' text.toList with
  | none => none
  | some (before, after) =>
    some ⟨String.ofList before, String.ofList after,
      by simpa using (Text.cutFirst?_eq_some_iff.1 h).2⟩

def read (text : String) : Except Fault Template :=
  match read? text with
  | some template => .ok template
  | none => .error (.noPlaceholder text)

/-- What a line holds between the two ends of a template, if it has both. -/
def body? (template : Template) (line : List Char) : Option (List Char) :=
  (template.opening.toList.isPrefixOf? line).bind template.closing.toList.isSuffixOf?

theorem body?_eq_some_iff {template : Template} {line body : List Char} :
    template.body? line = some body ↔
      line = template.opening.toList ++ body ++ template.closing.toList := by
  unfold body?
  rw [Option.bind_eq_some_iff]
  constructor
  · rintro ⟨rest, opened, closed⟩
    rw [Text.isPrefixOf?_eq_some_iff.1 opened, Text.isSuffixOf?_eq_some_iff.1 closed,
      List.append_assoc]
  · intro eq
    exact ⟨body ++ template.closing.toList,
      Text.isPrefixOf?_eq_some_iff.2 (by rw [eq, List.append_assoc]),
      Text.isSuffixOf?_eq_some_iff.2 rfl⟩

theorem toList_source (template : Template) :
    template.source.toList = template.opening.toList ++ '?' :: template.closing.toList := by
  simp [source]

theorem read?_eq_some_iff {text : String} {template : Template} :
    read? text = some template ↔ text = template.source := by
  obtain ⟨opening, closing, unmarked⟩ := template
  rw [← String.toList_inj, toList_source]
  unfold read?
  split
  · next h =>
    simp only [false_iff, reduceCtorEq]
    intro eq
    exact Text.cutFirst?_eq_none_iff.1 h (by simp [eq])
  · next before after h =>
    simp only [Option.some.injEq, mk.injEq]
    constructor
    · rintro ⟨rfl, rfl⟩
      simpa using (Text.cutFirst?_eq_some_iff.1 h).1
    · intro eq
      have := Text.cutFirst?_eq_some_iff.2 ⟨eq, unmarked⟩
      rw [h] at this
      simp only [Option.some.injEq, Prod.mk.injEq] at this
      exact ⟨by simp [this.1], by simp [this.2]⟩

theorem read?_source (template : Template) : read? template.source = some template :=
  read?_eq_some_iff.2 rfl

theorem read?_eq_none_iff {text : String} : read? text = none ↔ '?' ∉ text.toList := by
  rw [← Text.cutFirst?_eq_none_iff]
  unfold read?
  split <;> simp_all

theorem source_injective {a b : Template} (h : a.source = b.source) : a = b :=
  Option.some.inj (by rw [← read?_source a, h, read?_source])

end Template

end CoChange
