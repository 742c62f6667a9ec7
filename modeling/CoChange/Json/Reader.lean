import CoChange.Json.Number

/-!
# Reading JSON texts

A reader asks for a value of one shape and takes it off the front of a text. What it leaves is
shorter, which ends every loop. Texts are read from left to right, and the first fault counts: a
value of a wrong shape is found before a fault behind it.
-/

namespace CoChange.Json

/-- What a reader makes of `text`: a value and the shorter text behind it, or a stop. -/
abbrev Read (α : Type) (text : List Char) :=
  Except Stop (α × { rest : List Char // rest.length < text.length })

abbrev Reader (α : Type) := (text : List Char) → Read α text

/-- What is read behind the start of a longer text. -/
def Read.within {α β : Type} {inner text : List Char} (read : Read α inner)
    (shorter : inner.length ≤ text.length) (f : α → β) : Read β text :=
  match read with
  | .ok (value, ⟨rest, h⟩) => .ok (f value, ⟨rest, Nat.lt_of_lt_of_le h shorter⟩)
  | .error stop => .error stop

namespace Reader

def isSpace (c : Char) : Bool := c == ' ' || c == '\n' || c == '\t' || c == '\r'

def skipSpace (text : List Char) : List Char := text.dropWhile isSpace

theorem length_skipSpace_le (text : List Char) : (skipSpace text).length ≤ text.length :=
  (List.dropWhile_sublist _).length_le

theorem length_tail_le_of_skipSpace {text rest : List Char} {c : Char}
    (h : skipSpace text = c :: rest) : rest.length < text.length := by
  have := length_skipSpace_le text
  rw [h] at this
  exact this

/-! ## Strings -/

def hexValue? (c : Char) : Option Nat :=
  if '0' ≤ c ∧ c ≤ '9' then some (c.toNat - '0'.toNat)
  else if 'a' ≤ c ∧ c ≤ 'f' then some (c.toNat - 'a'.toNat + 10)
  else if 'A' ≤ c ∧ c ≤ 'F' then some (c.toNat - 'A'.toNat + 10)
  else none

/-- The number of four hexadecimal digits. -/
def hexValue₄? (a b c d : Char) : Option Nat := do
  return (((← hexValue? a) * 16 + (← hexValue? b)) * 16 + (← hexValue? c)) * 16 + (← hexValue? d)

/-- The character of a backslash and one more character. -/
def shortEscape? (c : Char) : Option Char :=
  if c = '"' ∨ c = '\\' ∨ c = '/' then some c
  else if c = 'b' then some '\x08'
  else if c = 'f' then some '\x0c'
  else if c = 'n' then some '\n'
  else if c = 'r' then some '\r'
  else if c = 't' then some '\t'
  else none

def isLeadingSurrogate (n : Nat) : Bool := 0xD800 ≤ n && n ≤ 0xDBFF

def isTrailingSurrogate (n : Nat) : Bool := 0xDC00 ≤ n && n ≤ 0xDFFF

/-- The character of two surrogates. -/
def surrogatePair (leading trailing : Nat) : Char :=
  Char.ofNat (0x10000 + (leading - 0xD800) * 0x400 + (trailing - 0xDC00))

/-- The stop for an escape whose four bytes are not four hexadecimal digits. They are consumed
before they are looked at. -/
def hexStop (text : List Char) : Stop :=
  if 4 ≤ byteCount text then .into .badEscape 4 text else .before .endInString []

/-- The stop for what follows a leading surrogate in place of another escape. -/
def unpairedStop : List Char → Stop
  | [] => .before .endInString []
  | ['\\'] => .before .endInString []
  | '\\' :: 'u' :: rest => hexStop rest
  | '\\' :: rest => .into .cutEscape 1 rest
  | rest => .into .cutEscape 1 rest

/-- The characters of a string up to its closing quote. -/
def stringBody (text : List Char) : Read (List Char) text :=
  match text with
  | [] => .error (.before .endInString [])
  | '"' :: rest => .ok ([], ⟨rest, Nat.lt_add_one _⟩)
  | ['\\'] => .error (.before .endInString [])
  | '\\' :: 'u' :: a :: b :: c :: d :: rest =>
    match hexValue₄? a b c d with
    | none => .error (hexStop (a :: b :: c :: d :: rest))
    | some n =>
      if isTrailingSurrogate n then .error (.before .loneSurrogate rest)
      else if isLeadingSurrogate n then
        match rest with
        | '\\' :: 'u' :: e :: f :: g :: h :: rest₂ =>
          match hexValue₄? e f g h with
          | none => .error (hexStop (e :: f :: g :: h :: rest₂))
          | some m =>
            if isTrailingSurrogate m then
              (stringBody rest₂).within (Nat.le_add_right _ 12) (surrogatePair n m :: ·)
            else .error (.before .loneSurrogate rest₂)
        | _ => .error (unpairedStop rest)
      else (stringBody rest).within (Nat.le_add_right _ 6) (Char.ofNat n :: ·)
  | '\\' :: 'u' :: rest => .error (hexStop rest)
  | '\\' :: c :: rest =>
    match shortEscape? c with
    | some e => (stringBody rest).within (Nat.le_add_right _ 2) (e :: ·)
    | none => .error (.into .badEscape 1 (c :: rest))
  | c :: rest =>
    if c.toNat < 0x20 then .error (.before .controlCharacter rest)
    else (stringBody rest).within (Nat.le_add_right _ 1) (c :: ·)
termination_by text.length
decreasing_by all_goals simp only [List.length_cons]; omega

/-! ## Values of a wrong kind -/

/-- Compares the rest of a word; the first wrong character is consumed. -/
def ident (word text : List Char) : Except Stop (List Char) :=
  match word, text with
  | [], rest => .ok rest
  | _ :: _, [] => .error (.before .endInValue [])
  | w :: word, c :: rest =>
    if c = w then ident word rest else .error (.into .expectedIdent 1 (c :: rest))

/-- What stands at the start of a text, and what follows it. Brackets are left where they are. -/
def found (text : List Char) : Except Stop (Found × List Char) :=
  match text with
  | 'n' :: rest => (ident "ull".toList rest).map (Found.null, ·)
  | 't' :: rest => (ident "rue".toList rest).map (Found.boolean true, ·)
  | 'f' :: rest => (ident "alse".toList rest).map (Found.boolean false, ·)
  | '-' :: rest => Number.read false rest
  | '"' :: rest => (stringBody rest).map fun (s, r) => (.string (String.ofList s), r.1)
  | '[' :: _ => .ok (.sequence, text)
  | '\x7b' :: _ => .ok (.map, text)
  | c :: _ => if c.isDigit then Number.read true text else .error (.into .expectedValue 1 text)
  | [] => .error (.before .expectedValue [])

/-- The stop for a text that does not start with a value of the expected kind. -/
def wrongKind (expected : Kind) (text : List Char) : Stop :=
  match found text with
  | .ok (value, rest) => .before (.wrongKind value expected) rest
  | .error stop => stop

/-! ## Readers -/

def string : Reader String := fun text =>
  match h : skipSpace text with
  | [] => .error (.before .endInValue [])
  | '"' :: rest =>
    (stringBody rest).within (Nat.le_of_lt (length_tail_le_of_skipSpace h)) String.ofList
  | other => .error (wrongKind .string other)

section Lists

variable {α : Type} (item : Reader α)

def moreItems (text : List Char) : Read (List α) text :=
  match h : skipSpace text with
  | [] => .error (.before .endInList [])
  | ']' :: rest => .ok ([], ⟨rest, length_tail_le_of_skipSpace h⟩)
  | ',' :: rest =>
    match skipSpace rest with
    | [] => .error (.before .endInValue [])
    | ']' :: after => .error (.into .trailingComma 1 (']' :: after))
    | _ =>
      match item rest with
      | .error stop => .error stop
      | .ok (value, ⟨after, shorter⟩) =>
        (moreItems after).within
          (Nat.le_of_lt (Nat.lt_trans shorter (length_tail_le_of_skipSpace h))) (value :: ·)
  | other => .error (.into .expectedCommaOrBracket 1 other)
termination_by text.length
decreasing_by exact Nat.lt_trans shorter (length_tail_le_of_skipSpace h)

/-- A sequence of values of one shape. -/
def list : Reader (List α) := fun text =>
  match h : skipSpace text with
  | [] => .error (.before .endInValue [])
  | '[' :: rest =>
    have shorter := Nat.le_of_lt (length_tail_le_of_skipSpace h)
    match skipSpace rest, length_skipSpace_le rest with
    | [], _ => .error (.before .endInList [])
    | ']' :: after, below => .ok ([], ⟨after, Nat.lt_of_lt_of_le below shorter⟩)
    | _, _ =>
      match item rest with
      | .error stop => .error stop
      | .ok (value, ⟨after, below⟩) =>
        (moreItems item after).within (Nat.le_trans (Nat.le_of_lt below) shorter) (value :: ·)
  | other => .error (wrongKind .sequence other)

/-- A key at the start of a text, the colon and the value behind it. -/
def member : Reader (String × α) := fun text =>
  match h : skipSpace text with
  | '"' :: rest =>
    match stringBody rest with
    | .error stop => .error stop
    | .ok (key, ⟨after, below⟩) =>
      match h₂ : skipSpace after with
      | [] => .error (.before .endInObject [])
      | ':' :: value =>
        (item value).within
          (Nat.le_of_lt (Nat.lt_trans (length_tail_le_of_skipSpace h₂)
            (Nat.lt_trans below (length_tail_le_of_skipSpace h))))
          (String.ofList key, ·)
      | other => .error (.into .expectedColon 1 other)
  | other => .error (.into .keyNotString 1 other)

def moreMembers (text : List Char) : Read (List (String × α)) text :=
  match h : skipSpace text with
  | [] => .error (.before .endInObject [])
  | '\x7d' :: rest => .ok ([], ⟨rest, length_tail_le_of_skipSpace h⟩)
  | ',' :: rest =>
    match skipSpace rest with
    | [] => .error (.before .endInValue [])
    | '\x7d' :: after => .error (.into .trailingComma 1 ('\x7d' :: after))
    | _ =>
      match member item rest with
      | .error stop => .error stop
      | .ok (entry, ⟨after, shorter⟩) =>
        (moreMembers after).within
          (Nat.le_of_lt (Nat.lt_trans shorter (length_tail_le_of_skipSpace h))) (entry :: ·)
  | other => .error (.into .expectedCommaOrBrace 1 other)
termination_by text.length
decreasing_by exact Nat.lt_trans shorter (length_tail_le_of_skipSpace h)

/-- A map from keys to values of one shape, in the order of the text. -/
def map : Reader (List (String × α)) := fun text =>
  match h : skipSpace text with
  | [] => .error (.before .endInValue [])
  | '\x7b' :: rest =>
    have shorter := Nat.le_of_lt (length_tail_le_of_skipSpace h)
    match skipSpace rest, length_skipSpace_le rest with
    | [], _ => .error (.before .endInObject [])
    | '\x7d' :: after, below => .ok ([], ⟨after, Nat.lt_of_lt_of_le below shorter⟩)
    | _, _ =>
      match member item rest with
      | .error stop => .error stop
      | .ok (entry, ⟨after, below⟩) =>
        (moreMembers item after).within (Nat.le_trans (Nat.le_of_lt below) shorter) (entry :: ·)
  | other => .error (wrongKind .map other)

end Lists

/-- Reads a whole text: only white space may follow the value. -/
def run {α : Type} (reader : Reader α) (text : List Char) : Except Fault α :=
  match reader text with
  | .error stop => .error (stop.fault text)
  | .ok (value, ⟨rest, _⟩) =>
    match skipSpace rest with
    | [] => .ok value
    | other => .error ((Stop.into .trailingCharacters 1 other).fault text)

end Reader

end CoChange.Json
