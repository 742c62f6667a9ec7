import CoChange.Proofs.Hunk.Run
import CoChange.Proofs.Text.Joined

/-!
# Diffs one behind the other

A diff that ends in a line feed shares no line with the diff behind it, so the first one leads to a
place from where the second one is read. A file section may still be open at that place. It makes no
difference to a diff that is read on its own: such a diff opens a section before its first hunk
(`readLines_in_section`). The hunks of both come one behind the other, and the faults of the second
are found behind the lines of the first (`readDiff_append_eq`).
-/

namespace CoChange.Hunk

/-! ## Sections left open -/

/-- What a line between hunks does outside all sections: it is refused as a header, it does nothing
in whatever section, or it leads to the same place from every section. -/
theorem takeOutside_cases (line : List Char) :
    takeOutside .outside line = .error .headerOutsideSection ∨
      (∀ current, takeOutside current line = .ok (⟨current, .nothing⟩, none)) ∨
        ∃ next, ∀ current, takeOutside current line = .ok (next, none) := by
  by_cases leaves : "diff ".toList <+: line
  · obtain ⟨text, rfl⟩ := leaves
    exact .inr (.inr ⟨_, fun _ => (TakesOutside.leave text).eq⟩)
  by_cases enters : "+++ ".toList <+: line
  · obtain ⟨text, rfl⟩ := enters
    exact .inr (.inr ⟨_, fun _ => (TakesOutside.enter text).eq⟩)
  by_cases starts : "@@".toList <+: line
  · left
    unfold takeOutside
    rw [← List.isPrefixOf_iff_prefix] at leaves starts
    rw [if_neg leaves, isPrefixOf?_eq_none_iff.2 enters]
    dsimp only
    rw [if_pos starts, if_pos rfl]
  · exact .inr (.inl fun _ => (TakesOutside.skip ⟨leaves, enters, starts⟩).eq)

/-- An open section makes no difference to lines in which no header misses one. -/
theorem readLines_in_section {number : Nat} {lines : List (List Char)}
    (sound : ∀ line, readLines .start number lines ≠
      .error (.malformedDiff line .headerOutsideSection)) (current : Section) :
    readLines ⟨current, .nothing⟩ number lines = readLines .start number lines := by
  induction lines generalizing number with
  | nil => rfl
  | cons line lines ih =>
    have outside : State.take .start line = takeOutside .outside line := take_between ..
    rw [readLines, outside] at sound
    rw [readLines, take_between, readLines, outside]
    obtain refused | idle | ⟨next, same⟩ := takeOutside_cases line
    · rw [refused] at sound
      exact absurd rfl (sound (number + 1))
    · -- Both runs stay in their sections, so they are compared again behind the line.
      rw [idle] at sound
      rw [idle, idle]
      have behind : ∀ place, readLines .start (number + 1) lines ≠
          .error (.malformedDiff place .headerOutsideSection) := by
        intro place refused
        apply sound place
        show (readLines .start (number + 1) lines).map _ = _
        rw [refused]
        rfl
      show (readLines ⟨current, .nothing⟩ (number + 1) lines).map _ =
        (readLines .start (number + 1) lines).map _
      rw [ih behind]
    · rw [same, same]

/-! ## Diffs -/

/-- A diff behind another one is read as it is read on its own, with its faults further down. -/
theorem readDiff_append_eq {above below : String} {hunks : List Hunk}
    (whole : ∀ c ∈ above.toList.getLast?, c = '\n') (read : readDiff above = .ok hunks)
    (sound : ∀ line, readDiff below ≠ .error (.malformedDiff line .headerOutsideSection)) :
    readDiff (above ++ below) =
      ((readDiff below).mapError (Fault.below (Text.lines above.toList).length)).map
        (hunks ++ ·) := by
  obtain ⟨current, run⟩ := exists_run read
  calc readDiff (above ++ below)
    _ = readLines .start 0 (Text.lines above.toList ++ Text.lines below.toList) := by
      rw [readDiff, String.toList_append, Text.lines_append whole]
    _ = (readLines ⟨current, .nothing⟩ (0 + (Text.lines above.toList).length)
          (Text.lines below.toList)).map (hunks ++ ·) := run.readLines_append 0 _
    _ = _ := by rw [readLines_add, readLines_in_section sound current, readDiff]

/-- **Concatenation.** A diff that is read and ends in a line feed, with another diff behind it,
gives the hunks of both one behind the other. Where the second one has a fault other than a header
outside all sections, the fault is found in it still, behind the lines of the first. -/
theorem readDiff_append {above : String} {hunks : List Hunk}
    (whole : above = "" ∨ above.toList.getLast? = some '\n') (read : readDiff above = .ok hunks) :
    (∀ below more, readDiff below = .ok more → readDiff (above ++ below) = .ok (hunks ++ more)) ∧
    ∀ below line flaw, flaw ≠ .headerOutsideSection →
      readDiff below = .error (.malformedDiff line flaw) →
      readDiff (above ++ below) =
        .error (.malformedDiff (line + (Text.lines above.toList).length) flaw) := by
  have feed : ∀ c ∈ above.toList.getLast?, c = '\n' := by
    rintro c last
    rcases whole with rfl | ends
    · cases last
    · rw [ends] at last
      exact (Option.some.inj last).symm
  constructor
  · intro below more found
    have sound : ∀ line, readDiff below ≠ .error (.malformedDiff line .headerOutsideSection) := by
      intro line refused
      rw [found] at refused
      cases refused
    rw [readDiff_append_eq feed read sound, found]
    rfl
  · intro below line flaw other found
    have sound : ∀ line, readDiff below ≠ .error (.malformedDiff line .headerOutsideSection) := by
      intro line refused
      rw [found] at refused
      cases refused
      exact other rfl
    rw [readDiff_append_eq feed read sound, found]
    rfl

/-- The section of the first diff is still open where the second one starts, and the second one has
a hunk without its last line, or with it. -/
theorem readDiff_append_openSection :
    let above := "+++ b/f\n@@ -1 +1 @@\n-a\n+b\n"
    let cut := "index\n+++ b/g\n@@ -2 +2,2 @@\n-c\n+d"
    let below := "index\n+++ b/g\n@@ -2 +2 @@\n-c\n+d"
    (above = "" ∨ above.toList.getLast? = some '\n') ∧ readDiff above = .ok [⟨"f", ⟨1, 1⟩⟩] ∧
      readDiff cut = .error (.malformedDiff 5 .bodyUnfinished) ∧
      readDiff (above ++ cut) = .error (.malformedDiff 9 .bodyUnfinished) ∧
      readDiff below = .ok [⟨"g", ⟨2, 2⟩⟩] ∧
      readDiff (above ++ below) = .ok [⟨"f", ⟨1, 1⟩⟩, ⟨"g", ⟨2, 2⟩⟩] := by
  intro above cut below
  have whole : above = "" ∨ above.toList.getLast? = some '\n' := by decide
  have read : readDiff above = .ok [⟨"f", ⟨1, 1⟩⟩] := by decide +kernel
  have refused : readDiff cut = .error (.malformedDiff 5 .bodyUnfinished) := by decide +kernel
  have more : readDiff below = .ok [⟨"g", ⟨2, 2⟩⟩] := by decide +kernel
  obtain ⟨found, faults⟩ := readDiff_append whole read
  have fault := faults cut 5 .bodyUnfinished (by decide) refused
  have lines : (Text.lines above.toList).length = 4 := by decide
  rw [lines] at fault
  exact ⟨whole, read, refused, fault, more, found below _ more⟩

end CoChange.Hunk
