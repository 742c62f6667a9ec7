import CoChange.Proofs.Text.ByteOrder

/-!
# Texts read back from their bytes

The bytes of a character are read as this character, whatever follows
(`decode_utf8EncodeChar_append`): the lead byte tells their number, and the first two of them are
never those of an overlong form, of a surrogate or of something above U+10FFFF. So the bytes of a
text are read as this text, with no fault (`decodeLenient_encode`).
-/

namespace CoChange.Text

/-! ## Bytes by their values -/

theorem isContinuation_iff {b : UInt8} :
    isContinuation b = true ↔ 0x80 ≤ b.toNat ∧ b.toNat ≤ 0xBF := by
  simp only [isContinuation, Bool.and_eq_true, decide_eq_true_eq, UInt8.le_iff_toNat_le,
    UInt8.reduceToNat]

theorem mayFollow_iff {lead second : UInt8} :
    mayFollow lead second = true ↔
      (0xC2 ≤ lead.toNat ∧ lead.toNat ≤ 0xF4) ∧ (0x80 ≤ second.toNat ∧ second.toNat ≤ 0xBF) ∧
        (lead.toNat = 0xE0 → 0xA0 ≤ second.toNat) ∧ (lead.toNat = 0xED → second.toNat ≤ 0x9F) ∧
        (lead.toNat = 0xF0 → 0x90 ≤ second.toNat) ∧ (lead.toNat = 0xF4 → second.toNat ≤ 0x8F) := by
  unfold mayFollow
  simp only [isContinuation, beq_iff_eq, ← UInt8.toNat_inj, UInt8.le_iff_toNat_le,
    UInt8.reduceToNat]
  split_ifs <;> simp only [Bool.and_eq_true, decide_eq_true_eq] <;> omega

/-! ## Characters of several bytes -/

section

variable {a b c d : UInt8} {v : Nat} (rest : List UInt8)

theorem decode_two (wide : 0x80 ≤ v) (short : v < 0x800) (lead : a.toNat = v / 64 + 0xC0)
    (last : b.toNat = v % 64 + 0x80) :
    decode (a :: b :: rest) = some (Char.ofNat v) :: decode rest := by
  have follows : mayFollow a b = true := mayFollow_iff.2 (by omega)
  have high : 0x80 ≤ a := UInt8.le_iff_toNat_le.2 (show 0x80 ≤ a.toNat by omega)
  have low : a < 0xE0 := UInt8.lt_iff_toNat_lt.2 (show a.toNat < 0xE0 by omega)
  have point : extend (a.toNat - 0xC0) b = v := by
    unfold extend
    omega
  rw [decode.eq_def]
  simp [UInt8.not_lt.2 high, follows, low, point]

theorem decode_three (wide : 0x800 ≤ v) (short : v < 0x10000)
    (scalar : v < 0xD800 ∨ 0xDFFF < v) (lead : a.toNat = v / 64 / 64 + 0xE0)
    (second : b.toNat = v / 64 % 64 + 0x80) (last : c.toNat = v % 64 + 0x80) :
    decode (a :: b :: c :: rest) = some (Char.ofNat v) :: decode rest := by
  have follows : mayFollow a b = true := mayFollow_iff.2 (by omega)
  have continues : isContinuation c = true := isContinuation_iff.2 (by omega)
  have high : 0xE0 ≤ a := UInt8.le_iff_toNat_le.2 (show 0xE0 ≤ a.toNat by omega)
  have low : a < 0xF0 := UInt8.lt_iff_toNat_lt.2 (show a.toNat < 0xF0 by omega)
  have point : extend (extend (a.toNat - 0xE0) b) c = v := by
    unfold extend
    omega
  have wider : 0x80 ≤ a := UInt8.le_trans (by decide) high
  rw [decode.eq_def]
  simp [UInt8.not_lt.2 wider, UInt8.not_lt.2 high, follows, continues, low, point]

theorem decode_four (wide : 0x10000 ≤ v) (short : v < 0x110000)
    (lead : a.toNat = v / 64 / 64 / 64 + 0xF0) (second : b.toNat = v / 64 / 64 % 64 + 0x80)
    (third : c.toNat = v / 64 % 64 + 0x80) (last : d.toNat = v % 64 + 0x80) :
    decode (a :: b :: c :: d :: rest) = some (Char.ofNat v) :: decode rest := by
  have follows : mayFollow a b = true := mayFollow_iff.2 (by omega)
  have continues : isContinuation c = true := isContinuation_iff.2 (by omega)
  have ends : isContinuation d = true := isContinuation_iff.2 (by omega)
  have high : 0xF0 ≤ a := UInt8.le_iff_toNat_le.2 (show 0xF0 ≤ a.toNat by omega)
  have point : extend (extend (extend (a.toNat - 0xF0) b) c) d = v := by
    unfold extend
    omega
  have wide : 0x80 ≤ a := UInt8.le_trans (by decide) high
  have wider : 0xE0 ≤ a := UInt8.le_trans (by decide) high
  rw [decode.eq_def]
  simp [UInt8.not_lt.2 wide, UInt8.not_lt.2 wider, UInt8.not_lt.2 high, follows, continues, ends,
    point]

end

/-! ## Texts -/

theorem decode_utf8EncodeChar_append (c : Char) (rest : List UInt8) :
    decode (String.utf8EncodeChar c ++ rest) = some c :: decode rest := by
  have valid := c.valid
  simp only [UInt32.isValidChar, Nat.isValidChar] at valid
  have back : Char.ofNat c.val.toNat = c := Char.ofNat_toNat c
  have value {n m : Nat} (small : n < 256) (eq : n = m) : (UInt8.ofNat n).toNat = m :=
    (UInt8.toNat_ofNat_of_lt small).trans eq
  -- The bytes hold the digits of the code point in base 64.
  have digits : c.val.toNat / 4096 = c.val.toNat / 64 / 64 ∧
      c.val.toNat / 262144 = c.val.toNat / 64 / 64 / 64 := by omega
  simp only [String.utf8EncodeChar, digits]
  generalize c.val.toNat = v at valid back ⊢
  rw [← back]
  split_ifs with one two three
  · have lead : (UInt8.ofNat v).toNat = v := value (by omega) rfl
    have ascii : UInt8.ofNat v < 0x80 := by
      rw [UInt8.lt_iff_toNat_lt, lead]
      exact Nat.lt_succ_of_le one
    rw [List.singleton_append, decode_ascii ascii, lead]
  · exact decode_two rest (by omega) (by omega) (value (by omega) (by omega))
      (value (by omega) (by omega))
  · exact decode_three rest (by omega) (by omega) (by omega) (value (by omega) (by omega))
      (value (by omega) (by omega)) (value (by omega) (by omega))
  · exact decode_four rest (by omega) (by omega) (value (by omega) (by omega))
      (value (by omega) (by omega)) (value (by omega) (by omega)) (value (by omega) (by omega))

theorem decode_encode (text : List Char) : decode (encode text) = text.map some := by
  induction text with
  | nil => rfl
  | cons c text ih =>
    rw [encode_cons, decode_utf8EncodeChar_append, ih, List.map_cons]

theorem decodeLenient_encode (text : List Char) : decodeLenient (encode text) = text := by
  unfold decodeLenient
  rw [decode_encode, List.map_map]
  exact List.map_id text

end CoChange.Text
