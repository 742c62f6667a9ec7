import CoChange.Json.Double
import CoChange.Json.Fault
import CoChange.Text.Digit

/-!
# Numbers in JSON texts

A reader that asks for something else still reads a number to its end, so as to say what it found.
A number without fraction and exponent is an integer if it fits 64 bits; any other is a double.
-/

namespace CoChange.Json.Number

/-- The largest 64-bit number. -/
def maxWord : Nat := Nat.pow 2 64 - 1

/-- The digits at the start of a text, and what follows. -/
def spanDigits (text : List Char) : List Nat × List Char :=
  ((text.takeWhile Char.isDigit).filterMap Text.digitValue?, text.dropWhile Char.isDigit)

/-- Puts digits behind `significand` as long as it fits 64 bits, and counts the digits taken. -/
def absorb (significand : Nat) : List Nat → Nat × Nat
  | [] => (significand, 0)
  | d :: rest =>
    if 10 * significand + d ≤ maxWord then
      let (value, taken) := absorb (10 * significand + d) rest
      (value, taken + 1)
    else (significand, 0)

/-- A double with its sign, once its last character is read. -/
def double (positive : Bool) (significand : Nat) (exponent : Int) (rest : List Char) :
    Except Stop (Found × List Char) :=
  match Double.ofDecimal? significand exponent with
  | some x => .ok (.floating ((if positive then "" else "-") ++ x.text), rest)
  | none => .error (.before .numberOutOfRange rest)

def exponentDigits (value : Nat) : List Char → Except (List Char) (Nat × List Char)
  | [] => .ok (value, [])
  | c :: rest =>
    if c.isDigit then
      let next := 10 * value + (c.toNat - '0'.toNat)
      if next < Nat.pow 2 31 then exponentDigits next rest else .error rest
    else .ok (value, c :: rest)

/-- What follows the letter of an exponent. -/
def exponentPart (positive : Bool) (significand : Nat) (start : Int) (text : List Char) :
    Except Stop (Found × List Char) :=
  let (raised, text) :=
    match text with
    | '+' :: rest => (true, rest)
    | '-' :: rest => (false, rest)
    | _ => (true, text)
  match text with
  | [] => .error (.before .endInValue [])
  | c :: _ =>
    if !c.isDigit then .error (.into .badNumber 1 text)
    else
      match exponentDigits 0 text with
      | .ok (value, rest) =>
        double positive significand (if raised then start + value else start - value) rest
      | .error rest =>
        if significand ≠ 0 ∧ raised then .error (.before .numberOutOfRange rest)
        else double positive 0 0 (rest.dropWhile Char.isDigit)

/-- What follows the digits of a double. -/
def doubleEnd (positive : Bool) (significand : Nat) (exponent : Int) :
    List Char → Except Stop (Found × List Char)
  | 'e' :: rest | 'E' :: rest => exponentPart positive significand exponent rest
  | rest => double positive significand exponent rest

/-- What follows the point of a number. -/
def fractionPart (positive : Bool) (significand : Nat) (exponent : Int) (text : List Char) :
    Except Stop (Found × List Char) :=
  match spanDigits text with
  | ([], []) => .error (.before .endInValue [])
  | ([], rest) => .error (.into .badNumber 1 rest)
  | (digits, rest) =>
    let (value, taken) := absorb significand digits
    doubleEnd positive value (exponent - taken) rest

/-- An integer with its sign, if it fits 64 bits. -/
def integer (positive : Bool) (significand : Nat) (rest : List Char) :
    Except Stop (Found × List Char) :=
  if positive then .ok (.integer significand, rest)
  else if significand ≠ 0 ∧ significand ≤ Nat.pow 2 63 then .ok (.integer (-significand), rest)
  else double false significand 0 rest

/-- What follows the digits before the point, `dropped` of which do not fit 64 bits. -/
def integerEnd (positive : Bool) (significand dropped : Nat) :
    List Char → Except Stop (Found × List Char)
  | '.' :: rest => fractionPart positive significand dropped rest
  | 'e' :: rest | 'E' :: rest => exponentPart positive significand dropped rest
  | rest =>
    if dropped = 0 then integer positive significand rest
    else double positive significand dropped rest

/-- A number without its sign. -/
def read (positive : Bool) : List Char → Except Stop (Found × List Char)
  | [] => .error (.before .endInValue [])
  | '0' :: rest =>
    if rest.head?.any Char.isDigit then .error (.into .badNumber 1 rest)
    else integerEnd positive 0 0 rest
  | c :: rest =>
    if c.isDigit then
      let (digits, after) := spanDigits (c :: rest)
      let (significand, taken) := absorb 0 digits
      integerEnd positive significand (digits.length - taken) after
    else .error (.into .badNumber 1 (c :: rest))

end CoChange.Json.Number
