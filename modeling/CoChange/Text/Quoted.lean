import CoChange.Text.Visible

/-!
# Quoted texts

Messages show a text between double quotes. The quote, the backslash and the usual control
characters have short escapes; every other character that does not show as itself is written by
its code point in hexadecimal. A list stands between square brackets, and an optional text says
whether it is there.
-/

namespace CoChange.Text

/-- A code point in lower case hexadecimal, without leading zeros. -/
def hexadecimal (n : Nat) : List Char := Nat.toDigits 16 n

/-- One character of a quoted text. -/
def quotedChar (c : Char) : List Char :=
  if c = '"' then ['\\', '"']
  else if c = '\\' then ['\\', '\\']
  else if c = '\n' then ['\\', 'n']
  else if c = '\r' then ['\\', 'r']
  else if c = '\t' then ['\\', 't']
  else if c = '\x00' then ['\\', '0']
  else if isVisible c then [c]
  else ['\\', 'u', '\x7b'] ++ hexadecimal c.toNat ++ ['\x7d']

def quoted (text : String) : String :=
  String.ofList ('"' :: (text.toList.flatMap quotedChar ++ ['"']))

def quotedList (texts : List String) : String :=
  "[" ++ ", ".intercalate (texts.map quoted) ++ "]"

def quotedOption : Option String → String
  | none => "None"
  | some text => "Some(" ++ quoted text ++ ")"

theorem quotedChar_of_visible {c : Char} (visible : isVisible c = true) (quote : c ≠ '"')
    (slash : c ≠ '\\') : quotedChar c = [c] := by
  have escaped : ∀ d ∈ ['\n', '\r', '\t', '\x00'], c ≠ d := by
    rintro d hd rfl
    simp only [List.mem_cons, List.not_mem_nil, or_false] at hd
    rcases hd with rfl | rfl | rfl | rfl <;> revert visible <;> decide +kernel
  simp [quotedChar, visible, quote, slash, escaped]

end CoChange.Text
