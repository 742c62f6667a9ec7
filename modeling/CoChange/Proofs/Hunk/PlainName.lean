import CoChange.Proofs.Hunk.Concatenation
import CoChange.Proofs.Hunk.Heading
import CoChange.Proofs.Hunk.QuotedName
import CoChange.Proofs.Hunk.Surplus
import CoChange.Proofs.Path.Equivalence
import CoChange.Proofs.Rule.Origin

/-!
# Names written without quotes

A name that is written as it is ends at the tab behind it, or with the line. But the blanks at its
end are taken off as well, although they belong to it (`newSide?_of_plain`). So the hunks of its
section are put into the file of the name without these blanks (`readDiff_of_plainName`), and this
is another file whenever there are any (`Path.normal_trimEnd_eq_iff`).
-/

namespace CoChange

/-! ## Blanks at the end of a path -/

namespace Path

/-- A segment comes to lie on top of all others, or the stack does not grow. -/
theorem push_eq_cons_or_length_le (absolute : Bool) (kept : List Segment) (segment : Segment) :
    push absolute kept segment = segment :: kept ∨
      (push absolute kept segment).length ≤ kept.length := by
  unfold push
  split
  · exact .inr (Nat.le_refl _)
  · split
    · cases kept with
      | nil => cases absolute <;> simp
      | cons top below => grind
    · exact .inl rfl

theorem eq_of_push_eq_cons {absolute : Bool} {kept : List Segment} {segment top : Segment}
    (h : push absolute kept segment = top :: kept) : segment = top := by
  rcases push_eq_cons_or_length_le absolute kept segment with longer | shorter
  · exact (List.cons.inj (longer.symm.trans h)).1
  · rw [h, List.length_cons] at shorter
    omega

theorem trimEnd_append_slash (before after : List Char) :
    Text.trimEnd (before ++ '/' :: after) = before ++ '/' :: Text.trimEnd after := by
  have ends : ∀ c ∈ (before ++ ['/']).getLast?, Text.isBlank c = false := by
    rw [List.getLast?_concat]
    rintro c ⟨⟩
    decide
  simpa using Text.trimEnd_append ends after

theorem unslashed_trimEnd {text : List Char} (h : '/' ∉ text) : '/' ∉ Text.trimEnd text := by
  obtain ⟨blanks, -, eq⟩ := Text.exists_eq_trimEnd_append text
  rw [eq] at h
  exact fun mem => h (List.mem_append_left blanks mem)

/-- The blanks at the end of a path stand in its last segment. -/
theorem exists_segments_trimEnd (path : List Char) :
    ∃ before last, segments path = before ++ [last] ∧
      segments (Text.trimEnd path) = before ++ [Text.trimEnd last] ∧
        (Text.trimEnd last = last ↔ Text.trimEnd path = path) := by
  cases cut : Text.cutLast? '/' path with
  | none =>
    have plain := Text.cutLast?_eq_none_iff.1 cut
    refine ⟨[], path, segments_of_unslashed plain, ?_, .rfl⟩
    exact segments_of_unslashed (unslashed_trimEnd plain)
  | some parts =>
    obtain ⟨before, last⟩ := parts
    obtain ⟨rfl, plain⟩ := Text.cutLast?_eq_some_iff.1 cut
    refine ⟨segments before, last, ?_, ?_, ?_⟩
    · rw [segments_append_slash, segments_of_unslashed plain]
    · rw [trimEnd_append_slash, segments_append_slash,
        segments_of_unslashed (unslashed_trimEnd plain)]
    · rw [trimEnd_append_slash, List.append_right_inj, List.cons.injEq, and_iff_right rfl]

/-- The blanks at its end belong to a path: without them its normal form is another one. -/
theorem normal_trimEnd_eq_iff {path : List Char} :
    normal (Text.trimEnd path) = normal path ↔ Text.trimEnd path = path := by
  refine ⟨fun same => ?_, fun same => by rw [same]⟩
  obtain ⟨before, last, split, splitTrimmed, whole⟩ := exists_segments_trimEnd path
  rw [← whole]
  by_contra blank
  -- The segments that mean something else than a name have no blanks to lose.
  have name : IsName last := by
    have listed : last ∈ segments path := by simp [split]
    refine ⟨?_, ?_, ?_, unslashed_of_mem_segments listed⟩ <;>
      (rintro rfl; exact blank (by decide))
  have reduced := (normal_eq_iff_reduce.1 same).2
  rw [split, splitTrimmed] at reduced
  unfold reduce at reduced
  rw [List.foldl_append, List.foldl_append, List.foldl_cons, List.foldl_nil, List.foldl_cons,
    List.foldl_nil, push_of_isName name, List.reverse_inj] at reduced
  exact blank (eq_of_push_eq_cons reduced)

end Path

namespace Hunk

/-! ## The line that names the file -/

section

variable {name trail text : List Char}

theorem rawName_append_of_blank {ending : List Char} (blank : Text.IsBlankText ending)
    (text : List Char) : rawName (text ++ ending) = rawName text := by
  unfold rawName
  rw [List.takeWhile_append]
  split
  · next whole =>
    have taken : text.takeWhile (· ≠ '\t') = text :=
      (List.takeWhile_prefix _).eq_of_length whole
    rw [taken]
    exact Text.trimEnd_append_of_blank
      (fun c mem => blank c ((List.takeWhile_prefix _).subset mem)) text
  · rfl

theorem rawName_dropReturn (text : List Char) : rawName (Text.dropReturn text) = rawName text := by
  obtain ⟨ending, eq, blank⟩ := Text.eq_dropReturn_append text
  calc rawName (Text.dropReturn text)
    _ = rawName (Text.dropReturn text ++ ending) := (rawName_append_of_blank blank _).symm
    _ = rawName text := by rw [← eq]

theorem newSide?_of_rawName (h : rawName text = ['b', '/'] ++ name) :
    newSide? text = some (String.ofList (Path.normal name)) := by
  have side : dropSide (['b', '/'] ++ name) = name := by
    unfold dropSide
    rw [Text.isPrefixOf?_eq_some_iff.2 rfl]
    rfl
  have there : ['b', '/'] ++ name ≠ "/dev/null".toList := by
    intro eq
    exact absurd (List.cons.inj eq).1 (by decide)
  have bare : unquote (['b', '/'] ++ name) = ['b', '/'] ++ name := rfl
  unfold newSide?
  rw [h, bare]
  dsimp only
  rw [if_neg there, side]

theorem newSide?_of_plain (tabless : '\t' ∉ name)
    (stops : trail = [] ∨ ∃ more, trail = '\t' :: more) :
    newSide? (Text.dropReturn (['b', '/'] ++ name ++ trail)) =
      some (String.ofList (Path.normal (Text.trimEnd name))) := by
  have behind : '\t' ∉ ['b', '/'] ++ name := by
    rw [List.mem_append, not_or]
    exact ⟨by decide, tabless⟩
  have solid : ∀ c ∈ ['b', '/'].getLast?, Text.isBlank c = false := by
    rintro c ⟨⟩
    decide
  apply newSide?_of_rawName
  rw [rawName_dropReturn, rawName_append behind stops, Text.trimEnd_append solid]

end

/-! ## Sections -/

/-- The lines of a section: hunks with the given headers, and lines that do not matter. -/
inductive SectionLines : List (List Char) → List Header → Prop
  | done : SectionLines [] []
  | skip {line : List Char} {lines : List (List Char)} {headers : List Header}
      (idle : IsIdle line) (tail : SectionLines lines headers) :
      SectionLines (line :: lines) headers
  | hunk {line : List Char} {header : Header} {body lines : List (List Char)}
      {headers : List Header} (heads : header.Heads line)
      (fills : Owed.Fills ⟨header.oldCount, header.newCount⟩ body)
      (tail : SectionLines lines headers) :
      SectionLines (line :: (body ++ lines)) (header :: headers)

theorem SectionLines.run {lines : List (List Char)} {headers : List Header}
    (h : SectionLines lines headers) (file : String) :
    Run ⟨.file file, .nothing⟩ lines (headers.map fun header => ⟨file, header.span⟩)
      ⟨.file file, .nothing⟩ := by
  induction h with
  | done => exact .nil
  | skip idle tail ih => exact .cons (TakesOutside.skip idle).take_eq ih
  | hunk heads fills tail ih =>
    have inside : Section.file file ≠ .outside := nofun
    have read := Header.read_eq_ok_iff.2 heads
    exact .cons (TakesOutside.hunk inside read).take_eq ((fills.run _).append ih)

theorem Run.readDiff_eq {text : String} {current : Section} {hunks : List Hunk}
    (run : Run .start (Text.lines text.toList) hunks ⟨current, .nothing⟩) :
    readDiff text = .ok hunks := by
  have whole := run.readLines_append 0 []
  rw [List.append_nil] at whole
  refine whole.trans ?_
  show Except.ok (hunks ++ []) = _
  rw [List.append_nil]

theorem readDiff_plainSection {name trail below : String} {headers : List Header}
    (tabless : '\t' ∉ name.toList) (stops : trail = "" ∨ ∃ more, trail = "\t" ++ more)
    (oneLine : '\n' ∉ name.toList ∧ '\n' ∉ trail.toList)
    (held : SectionLines (Text.lines below.toList) headers) :
    readDiff ("+++ b/" ++ name ++ trail ++ "\n" ++ below) =
      .ok (headers.map fun header =>
        ⟨String.ofList (Path.normal (Text.trimEnd name.toList)), header.span⟩) := by
  have stopsList : trail.toList = [] ∨ ∃ more, trail.toList = '\t' :: more := by
    rcases stops with rfl | ⟨more, rfl⟩
    · exact .inl rfl
    · exact .inr ⟨more.toList, by simp⟩
  have text : ("+++ b/" ++ name ++ trail ++ "\n" ++ below).toList =
      ("+++ ".toList ++ (['b', '/'] ++ name.toList ++ trail.toList)) ++ '\n' :: below.toList := by
    simp
  have one : '\n' ∉ "+++ ".toList ++ (['b', '/'] ++ name.toList ++ trail.toList) := by
    simp [oneLine]
  have enters := (@TakesOutside.enter .outside
    (Text.dropReturn (['b', '/'] ++ name.toList ++ trail.toList))).take_eq
  rw [newSide?_of_plain tabless stopsList] at enters
  apply Run.readDiff_eq
  rw [text, Text.lines_append_feed one, Text.dropReturn_append (by simp)]
  exact .cons enters (held.run _)

/-- A text whose lines all end in a line feed. -/
def IsWhole (text : String) : Prop := text = "" ∨ text.toList.getLast? = some '\n'

theorem IsWhole.append_feed {below : String} (h : IsWhole below) (text : String) :
    IsWhole (text ++ "\n" ++ below) := by
  rcases h with rfl | last
  · exact .inr (by simp)
  · exact .inr (by simp [List.getLast?_cons, last])

theorem readDiff_append_of_ok {above below : String} {hunks more : List Hunk}
    (whole : IsWhole above) (read : readDiff above = .ok hunks)
    (readBelow : readDiff below = .ok more) :
    readDiff (above ++ below) = .ok (hunks ++ more) := by
  have ends : ∀ c ∈ above.toList.getLast?, c = '\n' := by
    rcases whole with rfl | last
    · exact fun c mem => nomatch mem
    · exact fun c mem => (Option.some.inj (last.symm.trans mem)).symm
  have sound : ∀ line, readDiff below ≠ .error (.malformedDiff line .headerOutsideSection) := by
    intro line refused
    rw [readBelow] at refused
    cases refused
  rw [readDiff_append_eq ends read sound, readBelow]
  rfl

/-- **Blanks at the end of a name are lost.** In a diff, a line names the new side without quotes,
behind `b/`, and a tab with any text or nothing follows the name. Then the hunks of this section lie
in the file of the name without the blanks at its end, in normal form, whatever other sections stand
above and below. It is the file of the name itself exactly if the name does not end in a blank. -/
theorem readDiff_of_plainName {name trail above below rest : String} {hunks more : List Hunk}
    {headers : List Header} (tabless : '\t' ∉ name.toList)
    (stops : trail = "" ∨ ∃ text, trail = "\t" ++ text)
    (oneLine : '\n' ∉ name.toList ∧ '\n' ∉ trail.toList)
    (whole : IsWhole above) (read : readDiff above = .ok hunks)
    (held : SectionLines (Text.lines below.toList) headers)
    (wholeBelow : rest = "" ∨ IsWhole below) (readRest : readDiff rest = .ok more) :
    ∃ file, readDiff (above ++ ("+++ b/" ++ name ++ trail ++ "\n" ++ below) ++ rest) =
        .ok (hunks ++ headers.map (fun header => ⟨file, header.span⟩) ++ more) ∧
      file = Path.normalize (String.ofList (Text.trimEnd name.toList)) ∧
      (file = Path.normalize name ↔ ∀ c ∈ name.toList.getLast?, Text.isBlank c = false) := by
  have trimmed : Path.normalize (String.ofList (Text.trimEnd name.toList)) =
      String.ofList (Path.normal (Text.trimEnd name.toList)) := by
    rw [Path.normalize, String.toList_ofList]
  refine ⟨_, ?_, trimmed.symm, ?_⟩
  · have own := readDiff_plainSection tabless stops oneLine held
    have both := readDiff_append_of_ok whole read own
    rcases wholeBelow with rfl | wholeBelow
    · obtain rfl : [] = more := Except.ok.inj readRest
      rw [String.append_empty, both, List.append_nil]
    · refine readDiff_append_of_ok ?_ both readRest
      have ends := wholeBelow.append_feed (above ++ ("+++ b/" ++ name ++ trail))
      simpa only [String.append_assoc] using ends
  · rw [← Text.trimEnd_eq_self_iff, ← Path.normal_trimEnd_eq_iff, Path.normalize,
      String.ofList_inj]

/-- A name that starts with `b/` itself and has a wide space in it, between two other sections. -/
theorem readDiff_of_plainName_spaced :
    let above := "+++ b/f\n@@ -1 +1 @@\n-a\n+b\n"
    let below := "@@ -3,0 +4,2 @@ f\n+c\n+d\n\\ No newline\n"
    let rest := "diff\n+++ /dev/null\n@@ -1 +0,0 @@\n-e"
    SectionLines (Text.lines below.toList) [⟨0, 4, 2⟩] ∧
      readDiff (above ++ ("+++ b/" ++ "b/x\u3000y.py" ++ "\t2024-01-02" ++ "\n" ++ below) ++ rest) =
        .ok [⟨"f", ⟨1, 1⟩⟩, ⟨"b/x\u3000y.py", ⟨4, 5⟩⟩] := by
  intro above below rest
  have read : readDiff above = .ok [⟨"f", ⟨1, 1⟩⟩] := by decide +kernel
  have readRest : readDiff rest = .ok [] := by decide +kernel
  have heads : Header.Heads ⟨0, 4, 2⟩ "@@ -3,0 +4,2 @@ f".toList :=
    Header.read_eq_ok_iff.1 (by decide +kernel)
  have fills : Owed.Fills ⟨0, 2⟩ ["+c".toList, "+d".toList] :=
    ⟨by decide, by decide, by decide, by decide⟩
  have remark : IsIdle "\\ No newline".toList := ⟨by decide, by decide, by decide⟩
  have held : SectionLines (Text.lines below.toList) [⟨0, 4, 2⟩] := by
    have lines : Text.lines below.toList = "@@ -3,0 +4,2 @@ f".toList ::
        (["+c".toList, "+d".toList] ++ ["\\ No newline".toList]) := by
      decide +kernel
    rw [lines]
    exact .hunk heads fills (.skip remark .done)
  have solid : ∀ c ∈ "b/x\u3000y.py".toList.getLast?, Text.isBlank c = false := by
    rw [show "b/x\u3000y.py".toList.getLast? = some 'y' by decide]
    rintro c ⟨⟩
    decide
  obtain ⟨file, found, -, same⟩ := @readDiff_of_plainName "b/x\u3000y.py" "\t2024-01-02" _ _ _ _ _ _
    (by decide) (.inr ⟨"2024-01-02", by decide⟩) (by decide) (.inr (by decide)) read held
    (.inr (.inr (by decide))) readRest
  have itself : file = "b/x\u3000y.py" := (same.2 solid).trans (by decide +kernel)
  rw [itself] at found
  exact ⟨held, found⟩

/-- Two files whose names differ in a space at the end, which is lost with either. -/
theorem readDiff_blankEnd :
    Path.normalize "a.py " ≠ Path.normalize "a.py" ∧
      readDiff "+++ b/a.py \t\n@@ -0,0 +1 @@\n+x\n" = .ok [⟨"a.py", ⟨1, 1⟩⟩] ∧
      readDiff "+++ b/a.py\n@@ -0,0 +1 @@\n+x\n" = .ok [⟨"a.py", ⟨1, 1⟩⟩] := by
  decide +kernel

end Hunk

end CoChange
