/-!
# UTF-8

Bytes are read as UTF-8 from left to right. Where no character can be read, the longest start of
a character that stands there (at least one byte) is one fault. The strict reading refuses a
fault, the lenient one puts U+FFFD in its place.
-/

namespace CoChange.Text

/-- Whether a byte continues a character. -/
def isContinuation (b : UInt8) : Bool := 0x80 ≤ b && b ≤ 0xBF

/-- Whether `second` may follow the lead byte `lead` of a character of two bytes or more: no
overlong form, no surrogate, nothing above U+10FFFF. -/
def mayFollow (lead second : UInt8) : Bool :=
  if lead == 0xE0 then 0xA0 ≤ second && second ≤ 0xBF
  else if lead == 0xED then 0x80 ≤ second && second ≤ 0x9F
  else if lead == 0xF0 then 0x90 ≤ second && second ≤ 0xBF
  else if lead == 0xF4 then 0x80 ≤ second && second ≤ 0x8F
  else 0xC2 ≤ lead && lead ≤ 0xF4 && isContinuation second

/-- The payload of a continuation byte put behind `high`. -/
def extend (high : Nat) (b : UInt8) : Nat := high * 64 + (b.toNat - 0x80)

/-- The characters of a byte sequence, with `none` for each fault. -/
def decode : List UInt8 → List (Option Char)
  | [] => []
  | a :: rest =>
    if a < 0x80 then some (Char.ofNat a.toNat) :: decode rest
    else
      match rest with
      | [] => [none]
      | b :: rest₂ =>
        if !mayFollow a b then none :: decode (b :: rest₂)
        else if a < 0xE0 then some (Char.ofNat (extend (a.toNat - 0xC0) b)) :: decode rest₂
        else
          match rest₂ with
          | [] => [none]
          | c :: rest₃ =>
            if !isContinuation c then none :: decode (c :: rest₃)
            else if a < 0xF0 then
              some (Char.ofNat (extend (extend (a.toNat - 0xE0) b) c)) :: decode rest₃
            else
              match rest₃ with
              | [] => [none]
              | d :: rest₄ =>
                if !isContinuation d then none :: decode (d :: rest₄)
                else
                  some (Char.ofNat (extend (extend (extend (a.toNat - 0xF0) b) c) d)) ::
                    decode rest₄

/-- The text of a byte sequence, if it is UTF-8 throughout. -/
def decodeStrict? (bytes : List UInt8) : Option (List Char) := (decode bytes).mapM id

/-- The text of a byte sequence, with U+FFFD for each fault. -/
def decodeLenient (bytes : List UInt8) : List Char := (decode bytes).map (·.getD '\uFFFD')

def encode (text : List Char) : List UInt8 := text.flatMap String.utf8EncodeChar

@[simp] theorem decode_nil : decode [] = [] := rfl

@[simp] theorem encode_nil : encode [] = [] := rfl

@[simp] theorem encode_append (s t : List Char) : encode (s ++ t) = encode s ++ encode t :=
  List.flatMap_append

theorem decode_ascii {a : UInt8} (h : a < 0x80) (rest : List UInt8) :
    decode (a :: rest) = some (Char.ofNat a.toNat) :: decode rest := by
  rw [decode.eq_def]
  simp [h]

end CoChange.Text
