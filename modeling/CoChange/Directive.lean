import CoChange.Template
import CoChange.Text.Blank
import CoChange.Text.Lines

/-!
# Directives

A line holds a directive if, blanks at its ends aside, it has both ends of a template of its file;
the first such template counts. The text between them is split into words: the keyword and its
arguments.
-/

namespace CoChange

/-- `IF` opens a guarded block, `END` closes it. -/
inductive Keyword where
  | ifWord
  | endWord
deriving DecidableEq, Repr

namespace Keyword

def text : Keyword → String
  | ifWord => "IF"
  | endWord => "END"

def ofText? (word : String) : Option Keyword :=
  if word = "IF" then some ifWord else if word = "END" then some endWord else none

theorem ofText?_eq_some_iff {word : String} {keyword : Keyword} :
    ofText? word = some keyword ↔ word = keyword.text := by
  unfold ofText?
  cases keyword <;> split <;> (try split) <;> simp_all [text]

end Keyword

/-- A keyword and its arguments on a line, counted from one. -/
structure Directive where
  keyword : Keyword
  arguments : List String
  line : Nat
deriving DecidableEq, Repr

namespace Directive

/-- What a line holds inside the first template that it has. -/
def body? (templates : List Template) (line : List Char) : Option (List Char) :=
  templates.findSome? (·.body? (Text.trim line))

def ofWords (file : String) (number : Nat) (words : List String) : Except Fault Directive :=
  match Keyword.ofText? (words.headD "") with
  | some keyword => .ok ⟨keyword, words.tail, number⟩
  | none => .error (.badDirective file number (.unknown (words.headD "")))

def ofLine (file : String) (templates : List Template) (number : Nat) (line : List Char) :
    Except Fault (Option Directive) :=
  match body? templates line with
  | none => .ok none
  | some body => (ofWords file number ((Text.words body).map String.ofList)).map some

/-- The directives of lines, the first of which has the given number. -/
def ofLines (file : String) (templates : List Template) (number : Nat) :
    List (List Char) → Except Fault (List Directive)
  | [] => .ok []
  | line :: rest => do
    let found ← ofLine file templates number line
    let more ← ofLines file templates (number + 1) rest
    return found.toList ++ more

/-- The directives of a text, in line order. -/
def scan (file : String) (templates : List Template) (text : String) :
    Except Fault (List Directive) :=
  ofLines file templates 1 (Text.lines text.toList)

end Directive

end CoChange
