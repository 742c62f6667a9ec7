import CoChange.Proofs.Directive.Inscription
import CoChange.Proofs.Directive.LineOrder

/-!
# The words that lines hold

Scanning looks at the lines that have both ends of a template, and of these only at the words in
between (`heldWords`). It gives directives exactly when all these lines start with a keyword, and
the lines are then what the directives say (`ofLines_eq_ok_iff`). Otherwise it fails at the first
line that starts with another word or has none (`ofLines_eq_error_iff`).
-/

namespace CoChange

namespace Text

theorem ne_nil_of_mem_words {text word : List Char} (h : word ∈ words text) : word ≠ [] := by
  induction text generalizing word with
  | nil => cases h
  | cons c rest ih =>
    unfold words at h
    split at h
    · exact ih h
    · split at h
      · rcases List.mem_cons.1 h with rfl | h
        · exact List.cons_ne_nil _ _
        · exact ih h
      · rcases List.mem_cons.1 h with rfl | h
        · exact List.cons_ne_nil _ _
        · exact ih (List.mem_of_mem_tail h)

end Text

namespace Directive

/-- The lines that have both ends of a template, as their numbers and the words between these ends.
The first line has the given number. -/
def heldWords (templates : List Template) (number : Nat) (lines : List (List Char)) :
    List (Nat × List String) :=
  (lines.zipIdx number).filterMap fun (line, n) =>
    (body? templates line).map fun body => (n, (Text.words body).map String.ofList)

/-- The words of a line that holds no directive, although it has both ends of a template. -/
def IsUnknown (words : List String) : Prop := words.headD "" ≠ "IF" ∧ words.headD "" ≠ "END"

instance : DecidablePred IsUnknown := fun _ => inferInstanceAs (Decidable (_ ∧ _))

/-- The line of a directive and its words. -/
def inWords (directive : Directive) : Nat × List String :=
  (directive.line, directive.keyword.text :: directive.arguments)

variable {file : String} {templates : List Template} {number : Nat} {line : List Char}
  {lines : List (List Char)} {directives : List Directive} {words : List String} {fault : Fault}

/-! ## The lines -/

theorem heldWords_cons (line : List Char) (lines : List (List Char)) :
    heldWords templates number (line :: lines) =
      ((body? templates line).map fun body =>
        (number, (Text.words body).map String.ofList)).toList ++
          heldWords templates (number + 1) lines := by
  unfold heldWords
  rw [List.zipIdx_cons, List.filterMap_cons]
  dsimp only
  cases body? templates line <;> rfl

theorem mem_heldWords_iff {n : Nat} :
    (n, words) ∈ heldWords templates number lines ↔
      number ≤ n ∧ ∃ line body, lines[n - number]? = some line ∧
        body? templates line = some body ∧ words = (Text.words body).map String.ofList := by
  unfold heldWords
  simp only [List.mem_filterMap, Prod.exists, List.mk_mem_zipIdx_iff_le_and_getElem?_sub,
    Option.map_eq_some_iff, Prod.mk.injEq]
  constructor
  · rintro ⟨line, _, ⟨low, here⟩, body, found, rfl, rfl⟩
    exact ⟨low, line, body, here, found, rfl⟩
  · rintro ⟨low, line, body, here, found, rfl⟩
    exact ⟨line, n, ⟨low, here⟩, body, found, rfl, rfl⟩

theorem ordered_heldWords (templates : List Template) (number : Nat) (lines : List (List Char)) :
    (heldWords templates number lines).Pairwise (·.1 < ·.1) := by
  induction lines generalizing number with
  | nil => exact .nil
  | cons line lines ih =>
    rw [heldWords_cons]
    cases body? templates line with
    | none => exact ih (number + 1)
    | some body =>
      refine List.pairwise_cons.2 ⟨fun entry later => ?_, ih (number + 1)⟩
      exact (mem_heldWords_iff.1 later).1

theorem filled_of_mem_heldWords {n : Nat} (h : (n, words) ∈ heldWords templates number lines) :
    ∀ word ∈ words, word.toList ≠ [] := by
  obtain ⟨-, -, body, -, -, rfl⟩ := mem_heldWords_iff.1 h
  intro word mem
  obtain ⟨text, listed, rfl⟩ := List.mem_map.1 mem
  rw [String.toList_ofList]
  exact Text.ne_nil_of_mem_words listed

/-! ## The directives -/

theorem not_isUnknown_inWords (directive : Directive) : ¬ IsUnknown directive.inWords.2 := by
  obtain ⟨keyword, arguments, line⟩ := directive
  cases keyword <;> simp [IsUnknown, inWords, Keyword.text]

theorem ofWords_eq_ok_iff {directive : Directive} :
    ofWords file number words = .ok directive ↔ (number, words) = directive.inWords := by
  constructor
  · intro h
    unfold ofWords at h
    split at h
    · next keyword known =>
      cases h
      have first := Keyword.ofText?_eq_some_iff.1 known
      cases words with
      | nil => exact absurd first (by cases keyword <;> decide)
      | cons word rest =>
        obtain rfl : word = keyword.text := first
        rfl
    · cases h
  · intro eq
    obtain ⟨rfl, rfl⟩ := Prod.mk.inj eq
    exact ofWords_eq file directive.line directive.keyword directive.arguments

theorem ofWords_eq_error_iff :
    ofWords file number words = .error fault ↔
      IsUnknown words ∧ fault = .badDirective file number (.unknown (words.headD "")) := by
  unfold ofWords IsUnknown Keyword.ofText?
  generalize words.headD "" = word
  by_cases opens : word = "IF"
  · simp [opens]
  · by_cases closes : word = "END"
    · simp [closes]
    · simp [opens, closes, eq_comm]

theorem exists_ofWords_iff :
    (∃ directive, ofWords file number words = .ok directive) ↔ ¬ IsUnknown words := by
  constructor
  · rintro ⟨directive, read⟩
    obtain ⟨-, rfl⟩ := Prod.mk.inj (ofWords_eq_ok_iff.1 read)
    exact not_isUnknown_inWords directive
  · intro known
    cases read : ofWords file number words with
    | error fault => exact absurd (ofWords_eq_error_iff.1 read).1 known
    | ok directive => exact ⟨directive, rfl⟩

theorem ofLines_cons_eq_error_iff :
    ofLines file templates number (line :: lines) = .error fault ↔
      ofLine file templates number line = .error fault ∨
        ∃ found, ofLine file templates number line = .ok found ∧
          ofLines file templates (number + 1) lines = .error fault := by
  simp only [ofLines, Outcome.bind_eq_error_iff, pure, Except.pure, reduceCtorEq, and_false,
    exists_false, or_false]

theorem ofLines_eq_ok_iff :
    ofLines file templates number lines = .ok directives ↔
      heldWords templates number lines = directives.map inWords := by
  induction lines generalizing number directives with
  | nil => simp [ofLines, heldWords, eq_comm]
  | cons line lines ih =>
    rw [ofLines_cons_eq_ok_iff, heldWords_cons]
    unfold ofLine
    cases body? templates line with
    | none =>
      simp only [Option.map_none, Option.toList_none, List.nil_append, Except.ok.injEq]
      constructor
      · rintro ⟨_, more, rfl, read, rfl⟩
        exact ih.1 read
      · intro held
        exact ⟨none, directives, rfl, ih.2 held, rfl⟩
    | some body =>
      simp only [Option.map_some, Option.toList_some, List.singleton_append,
        Outcome.map_eq_ok_iff, ofWords_eq_ok_iff]
      constructor
      · rintro ⟨_, more, ⟨directive, here, rfl⟩, read, rfl⟩
        rw [here, ih.1 read]
        rfl
      · intro held
        obtain ⟨directive, more, rfl, here, read⟩ := List.map_eq_cons_iff.1 held.symm
        exact ⟨some directive, more, ⟨directive, here.symm, rfl⟩, ih.2 read.symm, rfl⟩

/-- Lines make no directives exactly when one of them holds words that are unknown, and the first
such line is told. -/
theorem ofLines_eq_error_iff :
    ofLines file templates number lines = .error fault ↔
      ∃ n words, (heldWords templates number lines).find? (IsUnknown ·.2) = some (n, words) ∧
        fault = .badDirective file n (.unknown (words.headD "")) := by
  induction lines generalizing number with
  | nil => simp [ofLines, heldWords]
  | cons line lines ih =>
    rw [heldWords_cons, ofLines_cons_eq_error_iff]
    unfold ofLine
    cases body? templates line with
    | none => simp [ih]
    | some body =>
      simp only [Option.map_some, Option.toList_some, List.singleton_append]
      generalize (Text.words body).map String.ofList = words
      rw [Outcome.map_eq_error_iff, List.find?_cons]
      by_cases unknown : IsUnknown words
      · rw [decide_eq_true unknown]
        constructor
        · rintro (here | ⟨found, here, -⟩)
          · exact ⟨number, words, rfl, (ofWords_eq_error_iff.1 here).2⟩
          · obtain ⟨directive, read, -⟩ := Outcome.map_eq_ok_iff.1 here
            exact absurd unknown (exists_ofWords_iff.1 ⟨directive, read⟩)
        · rintro ⟨n, _, ⟨⟩, eq⟩
          exact .inl (ofWords_eq_error_iff.2 ⟨unknown, eq⟩)
      · rw [decide_eq_false unknown, ← ih]
        constructor
        · rintro (here | ⟨-, -, later⟩)
          · exact absurd (ofWords_eq_error_iff.1 here).1 unknown
          · exact later
        · intro later
          obtain ⟨directive, read⟩ := (@exists_ofWords_iff file number words).2 unknown
          exact .inr ⟨some directive, Outcome.map_eq_ok_iff.2 ⟨directive, read, rfl⟩, later⟩

end Directive

end CoChange
