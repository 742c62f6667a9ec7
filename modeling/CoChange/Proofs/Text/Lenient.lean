import CoChange.Proofs.Text.Encoding
import CoChange.Proofs.Text.Joined
import CoChange.Text.Utf8
import Mathlib.Data.List.Basic

/-!
# Lenient reading line by line

A byte below 0x80 continues no character and ends the one before it, complete or not. So what
stands before such a byte is read without regard to what follows (`decode_append_ascii`), and bytes
are read line by line: a line feed comes from its own byte alone, and no line reaches into the next
(`lines_decodeLenient_append`).
-/

namespace CoChange.Text

theorem isContinuation_of_ascii {b : UInt8} (h : b < 0x80) : isContinuation b = false := by
  unfold isContinuation
  rw [decide_eq_false (UInt8.not_le.2 h), Bool.false_and]

theorem mayFollow_of_ascii {b : UInt8} (h : b < 0x80) (lead : UInt8) :
    mayFollow lead b = false := by
  have low : ∀ least : UInt8, 0x80 ≤ least → decide (least ≤ b) = false := by
    intro least bound
    exact decide_eq_false (UInt8.not_le.2 (UInt8.lt_of_lt_of_le h bound))
  unfold mayFollow
  rw [isContinuation_of_ascii h, low 0xA0 (by decide), low 0x80 (by decide), low 0x90 (by decide)]
  simp

/-- What stands before an ASCII byte is read without regard to what follows. -/
theorem decode_append_ascii {b : UInt8} (h : b < 0x80) (bytes rest : List UInt8) :
    decode (bytes ++ b :: rest) = decode bytes ++ decode (b :: rest) := by
  have apart (lead : UInt8) : mayFollow lead b = false := mayFollow_of_ascii h lead
  have ends : isContinuation b = false := isContinuation_of_ascii h
  fun_induction decode bytes with
  | case1 => rfl
  | case2 a more ascii ih =>
    rw [List.cons_append, decode_ascii ascii, ih]
    rfl
  | case3 a lead =>
    -- The byte behind an incomplete character is not taken with it.
    rw [List.singleton_append, decode.eq_def]
    simp [lead, apart]
  | case4 a lead c more refused ih =>
    rw [List.cons_append, List.cons_append, decode.eq_def]
    simpa [lead, refused] using ih
  | case5 a lead c more follows two ih =>
    rw [List.cons_append, List.cons_append, decode.eq_def]
    simp [lead, follows, two, ih]
  | case6 a lead c follows three =>
    rw [List.cons_append, List.cons_append, decode.eq_def]
    simp [lead, follows, three, ends]
  | case7 a lead c follows three d more refused ih =>
    rw [List.cons_append, List.cons_append, List.cons_append, decode.eq_def]
    simpa [lead, follows, three, refused] using ih
  | case8 a lead c follows three d more continues two ih =>
    rw [List.cons_append, List.cons_append, List.cons_append, decode.eq_def]
    simp [lead, follows, three, continues, two, ih]
  | case9 a lead c follows three d continues four =>
    rw [List.cons_append, List.cons_append, List.cons_append, decode.eq_def]
    simp [lead, follows, three, continues, four, ends]
  | case10 a lead c follows three d continues four e more refused ih =>
    rw [List.cons_append, List.cons_append, List.cons_append, List.cons_append, decode.eq_def]
    simpa [lead, follows, three, continues, four, refused] using ih
  | case11 a lead c follows three d continues four e more last ih =>
    rw [List.cons_append, List.cons_append, List.cons_append, List.cons_append, decode.eq_def]
    simp [lead, follows, three, continues, four, last, ih]

/-! ## Line feeds -/

theorem toNat_eq_of_ofNat_eq_feed {n : Nat} (h : Char.ofNat n = '\n') : n = 0x0A := by
  have value := congrArg Char.toNat h
  by_cases valid : n.isValidChar
  · rw [Char.ofNat, dif_pos valid] at value
    exact value
  · rw [Char.ofNat, dif_neg valid] at value
    cases value

/-- A character put together from several bytes is no line feed, so one read there is read from the
bytes behind it. -/
theorem feed_mem_behind {high : Nat} {b : UInt8} {later : List (Option Char)}
    (h : some '\n' ∈ some (Char.ofNat (extend high b)) :: later) (large : 2 ≤ high) :
    some '\n' ∈ later := by
  rcases List.mem_cons.1 h with here | behind
  · have value := toNat_eq_of_ofNat_eq_feed (Option.some.inj here).symm
    unfold extend at value
    omega
  · exact behind

theorem feed_mem_of_mem_decode {bytes : List UInt8} (h : some '\n' ∈ decode bytes) :
    0x0A ∈ bytes := by
  -- A character of several bytes lies above the line feed, which is then read behind it.
  fun_induction decode bytes with
  | case1 => cases h
  | case2 a more ascii ih =>
    rcases List.mem_cons.1 h with here | behind
    · have value := toNat_eq_of_ofNat_eq_feed (Option.some.inj here).symm
      exact List.mem_cons.2 (.inl (UInt8.toNat_inj.1 value.symm))
    · exact List.mem_cons_of_mem _ (ih behind)
  | case3 a lead => simp at h
  | case4 a lead c more refused ih =>
    exact List.mem_cons_of_mem _ (ih (by simpa using h))
  | case5 a lead c more follows two ih =>
    have bounds := mayFollow_iff.1 (by simpa using follows)
    have behind := feed_mem_behind h (by omega)
    simp [ih behind]
  | case6 a lead c follows three => simp at h
  | case7 a lead c follows three d more refused ih =>
    have behind := ih (by simpa using h)
    simp only [List.mem_cons] at behind ⊢
    tauto
  | case8 a lead c follows three d more continues two ih =>
    have bounds := mayFollow_iff.1 (by simpa using follows)
    have wide : 0xE0 ≤ a.toNat := UInt8.le_iff_toNat_le.1 (UInt8.not_lt.1 three)
    have behind := feed_mem_behind h (by unfold extend; omega)
    simp [ih behind]
  | case9 a lead c follows three d continues four => simp at h
  | case10 a lead c follows three d continues four e more refused ih =>
    have behind := ih (by simpa using h)
    simp only [List.mem_cons] at behind ⊢
    tauto
  | case11 a lead c follows three d continues four e more last ih =>
    have bounds := mayFollow_iff.1 (by simpa using follows)
    have wide : 0xF0 ≤ a.toNat := UInt8.le_iff_toNat_le.1 (UInt8.not_lt.1 four)
    have behind := feed_mem_behind h (by unfold extend; omega)
    simp [ih behind]

theorem feed_not_mem_decodeLenient {bytes : List UInt8} (h : 0x0A ∉ bytes) :
    '\n' ∉ decodeLenient bytes := by
  intro read
  obtain ⟨character, found, feed⟩ := List.mem_map.1 read
  cases character with
  | none => cases feed
  | some c =>
    obtain rfl : c = '\n' := feed
    exact h (feed_mem_of_mem_decode found)

/-! ## Lines -/

theorem decodeLenient_ascii {a : UInt8} (h : a < 0x80) (rest : List UInt8) :
    decodeLenient (a :: rest) = Char.ofNat a.toNat :: decodeLenient rest := by
  unfold decodeLenient
  rw [decode_ascii h, List.map_cons, Option.getD_some]

theorem decodeLenient_append_ascii {b : UInt8} (h : b < 0x80) (bytes rest : List UInt8) :
    decodeLenient (bytes ++ b :: rest) = decodeLenient bytes ++ decodeLenient (b :: rest) := by
  unfold decodeLenient
  rw [decode_append_ascii h, List.map_append]

/-- No line of bytes reaches into the next, whatever faults it ends in. -/
theorem lines_decodeLenient_append {line : List UInt8} (h : 0x0A ∉ line) (rest : List UInt8) :
    lines (decodeLenient (line ++ 0x0A :: rest)) =
      dropReturn (decodeLenient line) :: lines (decodeLenient rest) := by
  have feed : (0x0A : UInt8) < 0x80 := by decide
  rw [decodeLenient_append_ascii feed, decodeLenient_ascii feed]
  exact lines_append_feed (feed_not_mem_decodeLenient h) _

end CoChange.Text
