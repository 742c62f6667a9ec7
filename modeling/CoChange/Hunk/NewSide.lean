import CoChange.Path
import CoChange.Text.Blank
import CoChange.Text.Utf8

/-!
# The new side of a file section

The line `+++ path` names the file of the hunks that follow, `/dev/null` for a file that is gone.
The name ends at a tab or at the blanks at the end of the line. A name between double quotes has
escapes for single bytes, and what they make up is read as UTF-8. A leading `b/` falls away, and
the rest is brought into normal form.
-/

namespace CoChange.Hunk

/-! ## Quoted names -/

def octalDigit? (c : Char) : Option Nat :=
  if '0' ≤ c ∧ c ≤ '7' then some (c.toNat - '0'.toNat) else none

def letterEscape? (c : Char) : Option UInt8 :=
  if c = 'n' then some 0x0A
  else if c = 't' then some 0x09
  else if c = 'r' then some 0x0D
  else if c = 'a' then some 0x07
  else if c = 'b' then some 0x08
  else if c = 'f' then some 0x0C
  else if c = 'v' then some 0x0B
  else none

/-- The digits of an octal escape: at most `count` of them at the start of a text. -/
def octalDigits (count : Nat) (text : List Char) : List Nat :=
  match count, text with
  | count + 1, c :: rest =>
    match octalDigit? c with
    | some d => d :: octalDigits count rest
    | none => []
  | _, _ => []

/-- The byte that octal digits write, cut down to eight bits. -/
def octalByte (digits : List Nat) : UInt8 :=
  UInt8.ofNat (digits.foldl (fun value d => 8 * value + d) 0)

/-- The bytes of a name between its quotes. -/
def unescape (text : List Char) : List UInt8 :=
  match text with
  | [] => []
  | ['\\'] => [0x5C]
  | '\\' :: c :: rest =>
    match octalDigits 3 (c :: rest) with
    | [] =>
      match letterEscape? c with
      | some byte => byte :: unescape rest
      | none => Text.encode [c] ++ unescape rest
    | d :: digits => octalByte (d :: digits) :: unescape (rest.drop digits.length)
  | c :: rest => Text.encode [c] ++ unescape rest
termination_by text.length
decreasing_by all_goals simp only [List.length_cons, List.length_drop]; omega

/-- What stands between double quotes at both ends. -/
def inQuotes? (name : List Char) : Option (List Char) :=
  (['"'].isPrefixOf? name).bind ['"'].isSuffixOf?

/-- A name without its quotes and escapes, if it has quotes. -/
def unquote (name : List Char) : List Char :=
  match inQuotes? name with
  | some inner => Text.decodeLenient (unescape inner)
  | none => name

/-! ## Sections -/

/-- The name in what follows `+++ `: up to the first tab, without the blanks before it. -/
def rawName (text : List Char) : List Char := Text.trimEnd (text.takeWhile (· ≠ '\t'))

/-- A name without a leading `b/`. -/
def dropSide (name : List Char) : List Char := (['b', '/'].isPrefixOf? name).getD name

/-- The file that `text` names behind `+++ `; `none` for a file that is gone. -/
def newSide? (text : List Char) : Option String :=
  let name := unquote (rawName text)
  if name = "/dev/null".toList then none
  else some (String.ofList (Path.normal (dropSide name)))

end CoChange.Hunk
