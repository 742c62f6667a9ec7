import CoChange.Proofs.Hunk.Layout
import CoChange.Proofs.Text.Encoding
import CoChange.Proofs.Text.Words

/-!
# Names written between quotes

A name with characters that do not show as themselves is written between double quotes: a backslash
and a letter, or a backslash and three octal digits for each byte, stand for such a character
(`Quotes`). A character outside ASCII may be written either way, or as itself. Unescaping the
pieces one by one gives the bytes of the characters (`Quotes.unescape_append`), so the name is read
back however it is written, and so is the file of a section (`newSide?_of_quoted`).
-/

namespace CoChange.Hunk

/-- The characters that a letter behind a backslash stands for. -/
def escapeLetters : List (Char × Char) :=
  [('"', '"'), ('\\', '\\'), ('\x07', 'a'), ('\x08', 'b'), ('\t', 't'), ('\n', 'n'), ('\x0b', 'v'),
    ('\x0c', 'f'), ('\r', 'r')]

/-- A byte as a backslash and three octal digits. -/
def octal (byte : UInt8) : List Char :=
  ['\\', Nat.digitChar (byte.toNat / 64), Nat.digitChar (byte.toNat / 8 % 8),
    Nat.digitChar (byte.toNat % 8)]

/-- How a character may be written between quotes. -/
inductive Quotes (c : Char) : List Char → Prop
  | letter {letter : Char} (listed : (c, letter) ∈ escapeLetters) : Quotes c ['\\', letter]
  | octal (hidden : (c.toNat < 0x20 ∧ ∀ letter, (c, letter) ∉ escapeLetters) ∨ c.toNat = 0x7F ∨
      0x80 ≤ c.toNat) : Quotes c ((Text.encode [c]).flatMap octal)
  | plain (shown : 0x20 ≤ c.toNat ∧ c.toNat ≠ 0x7F) (unlisted : c ≠ '"' ∧ c ≠ '\\') : Quotes c [c]

/-- The texts that a name may be written as between quotes. -/
inductive Quoted : List Char → List Char → Prop
  | nil : Quoted [] []
  | cons {c : Char} {name piece text : List Char} (here : Quotes c piece)
      (more : Quoted name text) : Quoted (c :: name) (piece ++ text)

/-! ## Escapes undone -/

theorem unescape_letter {c letter : Char} (listed : (c, letter) ∈ escapeLetters)
    (rest : List Char) : unescape ('\\' :: letter :: rest) = Text.encode [c] ++ unescape rest := by
  simp only [escapeLetters, List.mem_cons, Prod.mk.injEq, List.not_mem_nil, or_false] at listed
  rcases listed with ⟨rfl, rfl⟩ | ⟨rfl, rfl⟩ | ⟨rfl, rfl⟩ | ⟨rfl, rfl⟩ | ⟨rfl, rfl⟩ | ⟨rfl, rfl⟩ |
    ⟨rfl, rfl⟩ | ⟨rfl, rfl⟩ | ⟨rfl, rfl⟩ <;> (rw [unescape]; rfl)

theorem octalDigit?_digitChar {d : Nat} (h : d < 8) : octalDigit? (Nat.digitChar d) = some d := by
  have each : ∀ d < 8, octalDigit? (Nat.digitChar d) = some d := by decide
  exact each d h

theorem unescape_octal (byte : UInt8) (rest : List Char) :
    unescape (octal byte ++ rest) = byte :: unescape rest := by
  have small : byte.toNat < 256 := byte.toNat_lt
  have digits (text : List Char) : octalDigits 3 (Nat.digitChar (byte.toNat / 64) ::
      Nat.digitChar (byte.toNat / 8 % 8) :: Nat.digitChar (byte.toNat % 8) :: text) =
        [byte.toNat / 64, byte.toNat / 8 % 8, byte.toNat % 8] := by
    simp only [octalDigits, octalDigit?_digitChar (show byte.toNat / 64 < 8 by omega),
      octalDigit?_digitChar (show byte.toNat / 8 % 8 < 8 by omega),
      octalDigit?_digitChar (show byte.toNat % 8 < 8 by omega)]
  have value : octalByte [byte.toNat / 64, byte.toNat / 8 % 8, byte.toNat % 8] = byte := by
    have sum : 8 * (8 * (8 * 0 + byte.toNat / 64) + byte.toNat / 8 % 8) + byte.toNat % 8 =
        byte.toNat := by omega
    unfold octalByte
    rw [List.foldl_cons, List.foldl_cons, List.foldl_cons, List.foldl_nil, sum, UInt8.ofNat_toNat]
  show unescape ('\\' :: _ :: _ :: _ :: rest) = _
  rw [unescape, digits]
  show octalByte _ :: unescape rest = _
  rw [value]

theorem unescape_plain {c : Char} (h : c ≠ '\\') (rest : List Char) :
    unescape (c :: rest) = Text.encode [c] ++ unescape rest := by
  rw [unescape]
  · rintro rfl
    exact absurd rfl h
  · rintro _ _ rfl
    exact absurd rfl h

theorem unescape_octals (bytes : List UInt8) (rest : List Char) :
    unescape (bytes.flatMap octal ++ rest) = bytes ++ unescape rest := by
  induction bytes with
  | nil => rfl
  | cons byte bytes ih =>
    rw [List.flatMap_cons, List.append_assoc, unescape_octal, ih]
    rfl

/-- However a character is written, its bytes are read. -/
theorem Quotes.unescape_append {c : Char} {piece : List Char} (h : Quotes c piece)
    (rest : List Char) : unescape (piece ++ rest) = Text.encode [c] ++ unescape rest := by
  cases h with
  | letter listed => exact unescape_letter listed rest
  | octal hidden => exact unescape_octals (Text.encode [c]) rest
  | plain shown unlisted => exact unescape_plain unlisted.2 rest

theorem Quoted.unescape_eq {name text : List Char} (h : Quoted name text) :
    unescape text = Text.encode name := by
  induction h with
  | nil => rw [unescape, Text.encode_nil]
  | cons here more ih =>
    rw [here.unescape_append, ih, ← Text.encode_append]
    rfl

/-! ## The line that names the file -/

theorem exists_quotes (c : Char) : ∃ piece, Quotes c piece := by
  by_cases listed : ∃ letter, (c, letter) ∈ escapeLetters
  · obtain ⟨letter, listed⟩ := listed
    exact ⟨_, .letter listed⟩
  · have unlisted : ∀ letter, (c, letter) ∉ escapeLetters := fun letter mem => listed ⟨letter, mem⟩
    by_cases shown : 0x20 ≤ c.toNat ∧ c.toNat ≠ 0x7F
    · refine ⟨[c], .plain shown ⟨?_, ?_⟩⟩
      · rintro rfl
        exact unlisted '"' (by decide)
      · rintro rfl
        exact unlisted '\\' (by decide)
    · refine ⟨_, .octal ?_⟩
      rcases Nat.lt_or_ge c.toNat 0x20 with low | high
      · exact .inl ⟨low, unlisted⟩
      · exact .inr (.inl (by_contra fun other => shown ⟨high, other⟩))

theorem exists_quoted (name : List Char) : ∃ text, Quoted name text := by
  induction name with
  | nil => exact ⟨[], .nil⟩
  | cons c name ih =>
    obtain ⟨piece, here⟩ := exists_quotes c
    obtain ⟨text, more⟩ := ih
    exact ⟨piece ++ text, .cons here more⟩

theorem Quotes.shown {c : Char} {piece : List Char} (h : Quotes c piece) :
    ∀ d ∈ piece, 0x20 ≤ d.toNat := by
  cases h with
  | @letter letter listed =>
    have letters : ∀ entry ∈ escapeLetters, 0x20 ≤ entry.2.toNat := by decide
    intro d mem
    rcases List.mem_pair.1 mem with rfl | rfl
    · decide
    · exact letters _ listed
  | octal hidden =>
    have digits : ∀ d < 8, 0x20 ≤ (Nat.digitChar d).toNat := by decide
    intro d mem
    obtain ⟨byte, -, mem⟩ := List.mem_flatMap.1 mem
    have small : byte.toNat < 256 := byte.toNat_lt
    simp only [Hunk.octal, List.mem_cons, List.not_mem_nil, or_false] at mem
    rcases mem with rfl | rfl | rfl | rfl
    · decide
    · exact digits _ (by omega)
    · exact digits _ (by omega)
    · exact digits _ (by omega)
  | plain shown unlisted =>
    intro d mem
    rw [List.mem_singleton.1 mem]
    exact shown.1

theorem Quoted.shown {name text : List Char} (h : Quoted name text) :
    ∀ d ∈ text, 0x20 ≤ d.toNat := by
  induction h with
  | nil => simp
  | cons here more ih =>
    intro d mem
    rcases List.mem_append.1 mem with mem | mem
    · exact here.shown d mem
    · exact ih d mem

theorem inQuotes?_quoted (text : List Char) : inQuotes? ('"' :: (text ++ ['"'])) = some text := by
  have opened : ['"'].isPrefixOf? ('"' :: (text ++ ['"'])) = some (text ++ ['"']) :=
    Text.isPrefixOf?_eq_some_iff.2 rfl
  unfold inQuotes?
  rw [opened]
  exact Text.isSuffixOf?_eq_some_iff.2 rfl

theorem Quoted.unquote_eq {name text : List Char} (h : Quoted name text) :
    unquote ('"' :: (text ++ ['"'])) = name := by
  unfold unquote
  rw [inQuotes?_quoted]
  show Text.decodeLenient (unescape text) = name
  rw [h.unescape_eq, Text.decodeLenient_encode]

/-- A name without tabs ends at a tab or with the line, and loses the blanks at its end. -/
theorem rawName_append {name trail : List Char} (tabless : '\t' ∉ name)
    (stops : trail = [] ∨ ∃ more, trail = '\t' :: more) :
    rawName (name ++ trail) = Text.trimEnd name := by
  have inside : ∀ c ∈ name, decide (c ≠ '\t') = true := by
    intro c mem
    refine decide_eq_true ?_
    rintro rfl
    exact tabless mem
  have nothing : trail.takeWhile (· ≠ '\t') = [] := by
    rcases stops with rfl | ⟨more, rfl⟩ <;> rfl
  unfold rawName
  rw [List.takeWhile_append_of_pos inside, nothing, List.append_nil]

theorem Quoted.rawName_eq {name text trail : List Char} (h : Quoted name text)
    (stops : trail = [] ∨ ∃ more, trail = '\t' :: more) :
    rawName ('"' :: (text ++ '"' :: trail)) = '"' :: (text ++ ['"']) := by
  have tabless : '\t' ∉ '"' :: (text ++ ['"']) := by
    intro mem
    simp only [List.mem_cons, List.mem_append, List.not_mem_nil, or_false] at mem
    rcases mem with quote | mem | quote
    · exact absurd quote (by decide)
    · exact absurd (h.shown _ mem) (by decide)
    · exact absurd quote (by decide)
  have solid : ∀ c ∈ ('"' :: (text ++ ['"'])).getLast?, Text.isBlank c = false := by
    rw [← List.cons_append, List.getLast?_concat]
    rintro c ⟨⟩
    decide
  have split : '"' :: (text ++ '"' :: trail) = '"' :: (text ++ ['"']) ++ trail := by simp
  rw [split, rawName_append tabless stops, Text.trimEnd_of_ends solid]

/-- **Quoting is undone.** Every name can be written between quotes, and however it is written it is
read back. A line that gives the new side as such a name behind `b/`, with nothing or a tab and any
text behind the closing quote, opens the section of the file of this name. -/
theorem newSide?_of_quoted :
    (∀ name, ∃ text, Quoted name text) ∧
    (∀ name text, Quoted name text → unquote ('"' :: (text ++ ['"'])) = name) ∧
    ∀ (name : String) text trail, Quoted ("b/" ++ name).toList text →
      (trail = [] ∨ ∃ more, trail = '\t' :: more) →
        newSide? ('"' :: (text ++ '"' :: trail)) = some (Path.normalize name) ∧
        ∀ current, takeOutside current ("+++ ".toList ++ '"' :: (text ++ '"' :: trail)) =
          .ok (⟨.file (Path.normalize name), .nothing⟩, none) := by
  refine ⟨exists_quoted, fun name text h => h.unquote_eq, ?_⟩
  intro name text trail h stops
  have file : newSide? ('"' :: (text ++ '"' :: trail)) = some (Path.normalize name) := by
    have chars : ("b/" ++ name).toList = ['b', '/'] ++ name.toList := String.toList_append
    have there : ("b/" ++ name).toList ≠ "/dev/null".toList := by
      rw [chars]
      intro eq
      exact absurd (List.cons.inj eq).1 (by decide)
    have side : dropSide ("b/" ++ name).toList = name.toList := by
      unfold dropSide
      rw [Text.isPrefixOf?_eq_some_iff.2 chars]
      rfl
    unfold newSide?
    rw [h.rawName_eq stops, h.unquote_eq]
    dsimp only
    rw [if_neg there, side]
    rfl
  refine ⟨file, fun current => ?_⟩
  have enters := (@TakesOutside.enter current ('"' :: (text ++ '"' :: trail))).eq
  rwa [file] at enters

/-- A digit behind an octal escape, a quote inside the name, and one character in two ways. -/
theorem newSide?_of_quoted_mixed :
    unquote "\"b/\\303\\2511\\\"é\"".toList = "b/é1\"é".toList ∧
      newSide? "\"b/\\303\\2511\\\"é\"\t2024-01-02".toList = some (Path.normalize "é1\"é") := by
  obtain ⟨-, undone, opens⟩ := newSide?_of_quoted
  have bytes : (Text.encode ['é']).flatMap octal = "\\303\\251".toList := by decide +kernel
  have escaped : Quotes 'é' "\\303\\251".toList := bytes ▸ .octal (.inr (.inr (by decide)))
  have written : Quoted "b/é1\"é".toList "b/\\303\\2511\\\"é".toList :=
    have plain {c : Char} (shown : 0x20 ≤ c.toNat ∧ c.toNat ≠ 0x7F) (unlisted : c ≠ '"' ∧ c ≠ '\\')
        {name text : List Char} (more : Quoted name text) : Quoted (c :: name) (c :: text) :=
      .cons (.plain shown unlisted) more
    plain (by decide) (by decide) <| plain (by decide) (by decide) <| .cons escaped <|
      plain (by decide) (by decide) <| .cons (@Quotes.letter '"' '"' (by decide)) <|
        plain (by decide) (by decide) .nil
  exact ⟨undone _ _ written, (opens "é1\"é" _ "\t2024-01-02".toList written (.inr ⟨_, rfl⟩)).1⟩

end CoChange.Hunk
