/-!
# Cutting texts

A text is cut at the first or the last place where a given character stands; the character itself
falls away. A given beginning or ending is taken off with `List.isPrefixOf?` and
`List.isSuffixOf?`, whose results are pinned down here.
-/

namespace CoChange.Text

/-- What stands before and after the first `mark`. -/
def cutFirst? (mark : Char) : List Char → Option (List Char × List Char)
  | [] => none
  | c :: rest =>
    if c = mark then some ([], rest)
    else (cutFirst? mark rest).map fun (before, after) => (c :: before, after)

/-- What stands before and after the last `mark`. -/
def cutLast? (mark : Char) (text : List Char) : Option (List Char × List Char) :=
  (cutFirst? mark text.reverse).map fun (after, before) => (before.reverse, after.reverse)

theorem cutFirst?_eq_some_iff {mark : Char} {text before after : List Char} :
    cutFirst? mark text = some (before, after) ↔
      text = before ++ mark :: after ∧ mark ∉ before := by
  induction text generalizing before with
  | nil => simp [cutFirst?]
  | cons c rest ih =>
    by_cases h : c = mark
    · cases before with
      | nil => simp [cutFirst?, h, eq_comm]
      | cons d before => simp only [cutFirst?, h]; simp; grind
    · cases before with
      | nil => simp [cutFirst?, h]
      | cons d before =>
        simp only [cutFirst?, h, if_false, Option.map_eq_some_iff, Prod.exists, Prod.mk.injEq,
          List.cons.injEq, List.cons_append]
        constructor
        · rintro ⟨b, a, hba, ⟨rfl, rfl⟩, rfl⟩
          obtain ⟨ht, hm⟩ := ih.1 hba
          exact ⟨⟨rfl, ht⟩, by simp [hm, Ne.symm h]⟩
        · rintro ⟨⟨rfl, ht⟩, hm⟩
          exact ⟨before, after, ih.2 ⟨ht, fun hb => hm (List.mem_cons_of_mem _ hb)⟩,
            ⟨rfl, rfl⟩, rfl⟩

theorem cutFirst?_eq_none_iff {mark : Char} {text : List Char} :
    cutFirst? mark text = none ↔ mark ∉ text := by
  induction text with
  | nil => simp [cutFirst?]
  | cons c rest ih =>
    by_cases h : c = mark
    · simp [cutFirst?, h]
    · simp [cutFirst?, h, ih, Ne.symm h]

theorem cutLast?_eq_some_iff {mark : Char} {text before after : List Char} :
    cutLast? mark text = some (before, after) ↔
      text = before ++ mark :: after ∧ mark ∉ after := by
  simp only [cutLast?, Option.map_eq_some_iff, Prod.exists, Prod.mk.injEq]
  constructor
  · rintro ⟨a, b, h, rfl, rfl⟩
    obtain ⟨ht, hm⟩ := cutFirst?_eq_some_iff.1 h
    refine ⟨?_, by simpa using hm⟩
    rw [← List.reverse_reverse text, ht]
    simp
  · rintro ⟨rfl, hm⟩
    exact ⟨after.reverse, before.reverse,
      cutFirst?_eq_some_iff.2 ⟨by simp, by simpa using hm⟩, by simp, by simp⟩

theorem cutLast?_eq_none_iff {mark : Char} {text : List Char} :
    cutLast? mark text = none ↔ mark ∉ text := by
  simp [cutLast?, cutFirst?_eq_none_iff]

theorem isPrefixOf?_eq_some_iff {opening text rest : List Char} :
    opening.isPrefixOf? text = some rest ↔ text = opening ++ rest := by
  induction opening generalizing text with
  | nil =>
    change some text = some rest ↔ text = rest
    rw [Option.some.injEq]
  | cons c opening ih =>
    cases text with
    | nil =>
      change none = some rest ↔ [] = c :: (opening ++ rest)
      simp
    | cons d text =>
      change (if c == d then opening.isPrefixOf? text else none) = some rest ↔
        d :: text = c :: (opening ++ rest)
      by_cases h : c = d
      · simp [h, ih]
      · simp [h, Ne.symm h]

theorem isSuffixOf?_eq_some_iff {closing text rest : List Char} :
    closing.isSuffixOf? text = some rest ↔ text = rest ++ closing := by
  change (closing.reverse.isPrefixOf? text.reverse).map List.reverse = some rest ↔ _
  simp only [Option.map_eq_some_iff, isPrefixOf?_eq_some_iff]
  constructor
  · rintro ⟨back, h, rfl⟩
    rw [← List.reverse_reverse text, h]
    simp
  · rintro rfl
    exact ⟨rest.reverse, by simp, by simp⟩

end CoChange.Text
