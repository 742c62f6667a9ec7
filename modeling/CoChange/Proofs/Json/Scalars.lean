import CoChange.Json.Reader
import CoChange.Json.Value
import CoChange.Proofs.Text.Decimal
import Mathlib.Data.List.Basic

/-!
# Written scalars

What stands between the quotes of a written string is read back as its characters, and the digits of
a word as the word, whatever follows them in a document (`gives_stringText`, `read_toDigits`).
-/

namespace CoChange.Json

/-- What a reader takes off the front of a text, and what it leaves. -/
def Read.Gives {α : Type} {text : List Char} (read : Read α text) (value : α)
    (rest : List Char) : Prop :=
  ∃ shorter, read = .ok (value, ⟨rest, shorter⟩)

theorem Read.Gives.within {α β : Type} {inner text rest : List Char} {read : Read α inner}
    {value : α} (h : read.Gives value rest) (shorter : inner.length ≤ text.length) (f : α → β) :
    (read.within shorter f).Gives (f value) rest := by
  obtain ⟨below, rfl⟩ := h
  exact ⟨_, rfl⟩

/-- Whether a text goes on with what stands behind a value in a document. -/
def Ends (rest : List Char) : Prop :=
  ∀ c ∈ rest.head?, c = ',' ∨ c = ']' ∨ c = '\x7d' ∨ c = '\n'

theorem ends_nil : Ends [] := fun c mem => absurd mem (Option.not_mem_none c)

theorem ends_cons {c : Char} (h : c = ',' ∨ c = ']' ∨ c = '\x7d' ∨ c = '\n') (rest : List Char) :
    Ends (c :: rest) := by
  rintro _ ⟨⟩
  exact h

/-! ## Strings -/

namespace Reader

section

variable {rest body after : List Char}

theorem gives_close (rest : List Char) : (stringBody ('"' :: rest)).Gives [] rest := by
  rw [stringBody.eq_2]
  exact ⟨_, rfl⟩

theorem gives_plain {c : Char} (notQuote : c ≠ '"') (notSlash : c ≠ '\\')
    (visible : ¬c.toNat < 0x20) (h : (stringBody rest).Gives body after) :
    (stringBody (c :: rest)).Gives (c :: body) after := by
  rw [stringBody.eq_7 c rest notQuote (fun eq => absurd eq notSlash)
    (fun _ _ _ _ _ eq => absurd eq notSlash) (fun _ eq => absurd eq notSlash)
    (fun _ _ eq => absurd eq notSlash), if_neg visible]
  exact h.within _ _

theorem gives_shortEscape {c e : Char} (short : shortEscape? c = some e)
    (h : (stringBody rest).Gives body after) :
    (stringBody ('\\' :: c :: rest)).Gives (e :: body) after := by
  have notCode : c ≠ 'u' := by
    rintro rfl
    cases short
  rw [stringBody.eq_6 c rest (fun _ _ _ _ _ eq => absurd eq notCode) notCode, short]
  exact h.within _ _

theorem gives_code {x y z w : Char} {n : Nat} (code : hexValue₄? x y z w = some n)
    (low : n < 0xD800) (h : (stringBody rest).Gives body after) :
    (stringBody ('\\' :: 'u' :: x :: y :: z :: w :: rest)).Gives (Char.ofNat n :: body) after := by
  have notTrailing : isTrailingSurrogate n = false := by
    unfold isTrailingSurrogate
    rw [Bool.and_eq_false_iff, decide_eq_false_iff_not]
    exact .inl (by omega)
  have notLeading : isLeadingSurrogate n = false := by
    unfold isLeadingSurrogate
    rw [Bool.and_eq_false_iff, decide_eq_false_iff_not]
    exact .inl (by omega)
  rw [stringBody.eq_4, code]
  simp only [notTrailing, notLeading, Bool.false_eq_true, if_false]
  exact h.within _ _

theorem hexValue₄?_hexByte : ∀ n < 0x20,
    hexValue₄? '0' '0' (Nat.digitChar (n / 16 % 16)) (Nat.digitChar (n % 16)) = some n := by
  decide

theorem escaped_cases (c : Char) :
    (∃ letter, shortEscape? letter = some c ∧ escaped c = ['\\', letter]) ∨
      (c.toNat < 0x20 ∧ escaped c = '\\' :: 'u' :: '0' :: '0' :: hexByte c.toNat) ∨
      (c ≠ '"' ∧ c ≠ '\\' ∧ ¬c.toNat < 0x20 ∧ escaped c = [c]) := by
  unfold escaped
  split
  · next eq => subst eq; exact .inl ⟨'"', rfl, rfl⟩
  split
  · next eq => subst eq; exact .inl ⟨'\\', rfl, rfl⟩
  split
  · next eq => subst eq; exact .inl ⟨'b', rfl, rfl⟩
  split
  · next eq => subst eq; exact .inl ⟨'f', rfl, rfl⟩
  split
  · next eq => subst eq; exact .inl ⟨'n', rfl, rfl⟩
  split
  · next eq => subst eq; exact .inl ⟨'r', rfl, rfl⟩
  split
  · next eq => subst eq; exact .inl ⟨'t', rfl, rfl⟩
  split
  · next control => exact .inr (.inl ⟨control, rfl⟩)
  · next notQuote notSlash _ _ _ _ _ visible =>
    exact .inr (.inr ⟨notQuote, notSlash, visible, rfl⟩)

theorem gives_escaped (c : Char) (h : (stringBody rest).Gives body after) :
    (stringBody (escaped c ++ rest)).Gives (c :: body) after := by
  obtain ⟨letter, short, eq⟩ | ⟨control, eq⟩ | ⟨notQuote, notSlash, visible, eq⟩ :=
    escaped_cases c <;> rw [eq]
  · exact gives_shortEscape short h
  · have read := gives_code (hexValue₄?_hexByte c.toNat control) (by omega) h
    rwa [Char.ofNat_toNat] at read
  · exact gives_plain notQuote notSlash visible h

end

/-- What is written between two quotes is read back up to the second one. -/
theorem gives_stringText (s rest : List Char) :
    (stringBody (s.flatMap escaped ++ '"' :: rest)).Gives s rest := by
  induction s with
  | nil => exact gives_close rest
  | cons c s ih =>
    rw [List.flatMap_cons, List.append_assoc]
    exact gives_escaped c ih

end Reader

/-! ## Numbers -/

namespace Number

theorem spanDigits_append {digits rest : List Char} (all : ∀ c ∈ digits, c.isDigit = true)
    (ends : Ends rest) : spanDigits (digits ++ rest) = (digits.map Text.digitValue, rest) := by
  have stop : rest.takeWhile Char.isDigit = [] ∧ rest.dropWhile Char.isDigit = rest := by
    cases rest with
    | nil => exact ⟨rfl, rfl⟩
    | cons c rest =>
      have other : c.isDigit = false := by
        obtain rfl | rfl | rfl | rfl := ends c rfl <;> rfl
      exact ⟨List.takeWhile_cons_of_neg (by simp [other]),
        List.dropWhile_cons_of_neg (by simp [other])⟩
  have values : digits.filterMap Text.digitValue? = digits.map Text.digitValue := by
    rw [← List.filterMap_eq_map]
    refine List.filterMap_congr fun c mem => ?_
    exact Text.digitValue?_eq_some_iff.2 ⟨all c mem, rfl⟩
  unfold spanDigits
  rw [List.takeWhile_append_of_pos all, List.dropWhile_append_of_pos all, stop.1, stop.2,
    List.append_nil, values]

theorem le_ofDigitChars (start : Nat) (digits : List Char) :
    start ≤ Nat.ofDigitChars 10 digits start := by
  induction digits generalizing start with
  | nil => exact Nat.le_refl _
  | cons c digits ih =>
    rw [Nat.ofDigitChars_cons]
    have := ih (10 * start + (c.toNat - '0'.toNat))
    omega

theorem absorb_eq {start : Nat} {digits : List Char}
    (fits : Nat.ofDigitChars 10 digits start ≤ maxWord) :
    absorb start (digits.map Text.digitValue) =
      (Nat.ofDigitChars 10 digits start, digits.length) := by
  induction digits generalizing start with
  | nil => rfl
  | cons c digits ih =>
    rw [Nat.ofDigitChars_cons] at fits ⊢
    have here : 10 * start + Text.digitValue c ≤ maxWord :=
      Nat.le_trans (le_ofDigitChars _ _) fits
    have rest := ih fits
    rw [List.map_cons, absorb, if_pos here]
    simp only [Text.digitValue] at rest ⊢
    rw [rest, List.length_cons]

theorem integerEnd_eq (significand : Nat) {rest : List Char} (ends : Ends rest) :
    integerEnd true significand 0 rest = .ok (.integer significand, rest) := by
  unfold integerEnd
  split
  · exact absurd (ends '.' rfl) (by decide)
  · exact absurd (ends 'e' rfl) (by decide)
  · exact absurd (ends 'E' rfl) (by decide)
  · rfl

/-- Only zero is written with a zero in front. -/
theorem head?_toDigits_ne (n : Nat) (ne : n ≠ 0) : (Nat.toDigits 10 n).head? ≠ some '0' := by
  induction n using Nat.strongRecOn with
  | ind n ih =>
    rw [Nat.toDigits_eq_if (by decide)]
    split
    · rw [List.head?_cons, Ne, Option.some.injEq, Nat.digitChar_eq_zero]
      exact ne
    · next large =>
      have below := ih (n / 10) (by omega) (by omega)
      rwa [List.head?_append_of_ne_nil _ Nat.toDigits_ne_nil]

theorem read_toDigits {n : Nat} (fits : n ≤ maxWord) {rest : List Char} (ends : Ends rest) :
    read true (Nat.toDigits 10 n ++ rest) = .ok (.integer n, rest) := by
  have all : ∀ c ∈ Nat.toDigits 10 n, c.isDigit = true := fun c mem =>
    Nat.isDigit_of_mem_toDigits (by decide) (by decide) mem
  have span := spanDigits_append all ends
  have taken : absorb 0 ((Nat.toDigits 10 n).map Text.digitValue) =
      (n, (Nat.toDigits 10 n).length) := by
    have written : Nat.ofDigitChars 10 (Nat.toDigits 10 n) 0 = n :=
      Nat.ofDigitChars_ten_toDigits
    rw [absorb_eq (written.symm ▸ fits), written]
  -- A leading zero is a branch of its own: it must not be followed by a digit.
  by_cases zero : n = 0
  · subst zero
    have single : rest.head?.any Char.isDigit = false := by
      cases rest with
      | nil => rfl
      | cons c rest => obtain rfl | rfl | rfl | rfl := ends c rfl <;> rfl
    rw [Nat.toDigits_zero, List.singleton_append, read, single]
    exact integerEnd_eq 0 ends
  · have first := head?_toDigits_ne n zero
    obtain ⟨c, tail, eq⟩ := List.exists_cons_of_ne_nil (Nat.toDigits_ne_nil (n := n) (b := 10))
    rw [eq] at all span taken first ⊢
    have notZero : c ≠ '0' := fun same => first (congrArg some same)
    rw [List.cons_append] at span ⊢
    rw [read.eq_3 true c (tail ++ rest) notZero, if_pos (all c List.mem_cons_self), span]
    simp only [taken, List.length_map, Nat.sub_self]
    exact integerEnd_eq n ends

end Number

end CoChange.Json
