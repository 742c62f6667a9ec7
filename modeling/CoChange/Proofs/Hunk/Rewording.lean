import CoChange.Proofs.Hunk.Layout
import CoChange.Proofs.Text.Lenient

/-!
# What the lines of a diff hold

Only the lines between hunks that end a section, open one or announce a hunk are read beyond their
first character. A diff may be reworded in all the rest: behind the mark of a line in a body any
bytes may stand, and lines that do not matter may come and go between hunks (`Rewording`). Two such
diffs are read in lock step, each line leaving both at the same place, so they have the same hunks
(`readDiff_of_rewording`).
-/

namespace CoChange.Hunk

/-- The bytes that a line of a body may start with: `+`, `-`, a space and a backslash. -/
def bodyMarks : List UInt8 := [0x2B, 0x2D, 0x20, 0x5C]

/-- The text of a line of bytes. -/
def lineText (line : List UInt8) : List Char := Text.dropReturn (Text.decodeLenient line)

/-- Two sequences of bytes that say the same to a reader who stands at some place: the second has
other bytes behind marks in bodies, and more or fewer lines that do not matter. A line that is
changed between hunks is one that is deleted and another one that is inserted. -/
inductive Rewording : State → List UInt8 → List UInt8 → Prop
  | last {state : State} {line : List UInt8} (oneLine : 0x0A ∉ line) : Rewording state line line
  | lastInBody {state : State} {mark : UInt8} {old new : List UInt8} (owes : state.owed ≠ .nothing)
      (marks : mark ∈ bodyMarks) (oneOld : 0x0A ∉ old) (oneNew : 0x0A ∉ new) :
      Rewording state (mark :: old) (mark :: new)
  | keep {state next : State} {hunk : Option Hunk} {line bytes changed : List UInt8}
      (oneLine : 0x0A ∉ line) (taken : state.take (lineText line) = .ok (next, hunk))
      (tail : Rewording next bytes changed) :
      Rewording state (line ++ 0x0A :: bytes) (line ++ 0x0A :: changed)
  | replace {state next : State} {hunk : Option Hunk} {mark : UInt8}
      {old new bytes changed : List UInt8} (owes : state.owed ≠ .nothing) (marks : mark ∈ bodyMarks)
      (oneOld : 0x0A ∉ old) (oneNew : 0x0A ∉ new)
      (taken : state.take (lineText (mark :: old)) = .ok (next, hunk))
      (tail : Rewording next bytes changed) :
      Rewording state (mark :: old ++ 0x0A :: bytes) (mark :: new ++ 0x0A :: changed)
  | insert {state : State} {line bytes changed : List UInt8} (between : state.owed = .nothing)
      (oneLine : 0x0A ∉ line) (idle : IsIdle (Text.decodeLenient line))
      (tail : Rewording state bytes changed) : Rewording state bytes (line ++ 0x0A :: changed)
  | delete {state : State} {line bytes changed : List UInt8} (between : state.owed = .nothing)
      (oneLine : 0x0A ∉ line) (idle : IsIdle (Text.decodeLenient line))
      (tail : Rewording state bytes changed) : Rewording state (line ++ 0x0A :: bytes) changed

/-! ## Single lines -/

theorem IsIdle.dropReturn {line : List Char} (h : IsIdle line) : IsIdle (Text.dropReturn line) := by
  obtain ⟨ending, eq, -⟩ := Text.eq_dropReturn_append line
  have shorter : Text.dropReturn line <+: line := ⟨ending, eq.symm⟩
  exact ⟨fun leaves => h.leaves (leaves.trans shorter),
    fun enters => h.enters (enters.trans shorter), fun starts => h.starts (starts.trans shorter)⟩

theorem take_of_idle {state : State} {line : List UInt8} (between : state.owed = .nothing)
    (idle : IsIdle (Text.decodeLenient line)) :
    state.take (lineText line) = .ok (state, none) := by
  obtain ⟨current, owed⟩ := state
  change owed = .nothing at between
  subst between
  have taken : State.take ⟨current, .nothing⟩ (lineText line) =
      takeOutside current (lineText line) := if_pos rfl
  rw [taken]
  exact (TakesOutside.skip idle.dropReturn).eq

/-- The first character of a line in a body decides what it is taken for. -/
theorem Owed.take_cons (owed : Owed) (c : Char) (old new : List Char) :
    owed.take (c :: old) = owed.take (c :: new) := by
  by_cases added : c = '+'
  · subst added
    rfl
  by_cases removed : c = '-'
  · subst removed
    rfl
  by_cases context : c = ' '
  · subst context
    rfl
  by_cases remark : c = '\\'
  · subst remark
    rfl
  simp [Owed.take, added, removed, context, remark]

theorem take_cons_of_owed {state : State} (owes : state.owed ≠ .nothing) (c : Char)
    (old new : List Char) : state.take (c :: old) = state.take (c :: new) := by
  unfold State.take
  rw [if_neg owes, if_neg owes, Owed.take_cons]

theorem bounds_of_mark {mark : UInt8} (marks : mark ∈ bodyMarks) :
    mark < 0x80 ∧ Char.ofNat mark.toNat ≠ '\r' ∧ mark ≠ 0x0A := by
  have cases : mark = 0x2B ∨ mark = 0x2D ∨ mark = 0x20 ∨ mark = 0x5C := by
    simpa [bodyMarks] using marks
  rcases cases with rfl | rfl | rfl | rfl <;> decide

/-- A mark is read as a character of its own, whatever stands behind it. -/
theorem decodeLenient_cons_of_mark {mark : UInt8} (marks : mark ∈ bodyMarks) (line : List UInt8) :
    Text.decodeLenient (mark :: line) = Char.ofNat mark.toNat :: Text.decodeLenient line :=
  Text.decodeLenient_ascii (bounds_of_mark marks).1 line

theorem lineText_cons_of_mark {mark : UInt8} (marks : mark ∈ bodyMarks) (line : List UInt8) :
    lineText (mark :: line) = Char.ofNat mark.toNat :: lineText line := by
  unfold lineText
  rw [decodeLenient_cons_of_mark marks]
  apply Text.dropReturn_cons
  intro isReturn
  exact absurd isReturn (bounds_of_mark marks).2.1

theorem feed_not_mem_cons_of_mark {mark : UInt8} (marks : mark ∈ bodyMarks) {line : List UInt8}
    (oneLine : 0x0A ∉ line) : 0x0A ∉ mark :: line :=
  List.not_mem_cons_of_ne_of_not_mem (bounds_of_mark marks).2.2.symm oneLine

/-! ## Runs -/

theorem readLines_eq_ok_of_number {state : State} {number : Nat} {lines : List (List Char)}
    {hunks : List Hunk} (h : readLines state number lines = .ok hunks) (other : Nat) :
    readLines state other lines = .ok hunks := by
  induction lines generalizing state number other hunks with
  | nil =>
    by_cases between : state.owed = .nothing
    · rwa [readLines, if_pos between] at h ⊢
    · rw [readLines, if_neg between] at h
      cases h
  | cons line lines ih =>
    obtain ⟨next, hunk, more, taken, read, rfl⟩ := readLines_cons_eq_ok_iff.1 h
    exact readLines_cons_eq_ok_iff.2 ⟨next, hunk, more, taken, ih read (other + 1), rfl⟩

/-- The hunks that follow line `number` of a diff, given as bytes. -/
def readBytes (state : State) (number : Nat) (bytes : List UInt8) : Except Fault (List Hunk) :=
  readLines state number (Text.lines (Text.decodeLenient bytes))

/-- The first line of bytes is read before the bytes behind it. -/
theorem readBytes_append_feed_iff {state : State} {number : Nat} {line bytes : List UInt8}
    {hunks : List Hunk} (oneLine : 0x0A ∉ line) :
    readBytes state number (line ++ 0x0A :: bytes) = .ok hunks ↔
      ∃ next hunk more, state.take (lineText line) = .ok (next, hunk) ∧
        readBytes next (number + 1) bytes = .ok more ∧ hunks = hunk.toList ++ more := by
  unfold readBytes
  rw [Text.lines_decodeLenient_append oneLine]
  exact readLines_cons_eq_ok_iff

/-- A diff that can be read is a rewording of itself, so the relation reaches each of its lines. -/
theorem rewording_self {state : State} {number : Nat} {bytes : List UInt8} {hunks : List Hunk}
    (read : readBytes state number bytes = .ok hunks) : Rewording state bytes bytes := by
  by_cases feed : 0x0A ∈ bytes
  · obtain ⟨line, rest, eq, oneLine⟩ := List.eq_append_cons_of_mem feed
    have shorter : rest.length < bytes.length := by
      rw [eq, List.length_append, List.length_cons]
      omega
    rw [eq] at read ⊢
    obtain ⟨next, hunk, more, taken, behind, -⟩ := (readBytes_append_feed_iff oneLine).1 read
    exact .keep oneLine taken (rewording_self behind)
  · exact .last feed
termination_by bytes.length

theorem readBytes_cons_of_mark_iff {state : State} {number : Nat} {mark : UInt8}
    {line : List UInt8} {hunks : List Hunk} (marks : mark ∈ bodyMarks) (oneLine : 0x0A ∉ line) :
    readBytes state number (mark :: line) = .ok hunks ↔
      ∃ next hunk more, state.take (Char.ofNat mark.toNat :: Text.decodeLenient line) =
          .ok (next, hunk) ∧
        readLines next (number + 1) [] = .ok more ∧ hunks = hunk.toList ++ more := by
  have oneText := Text.feed_not_mem_decodeLenient (feed_not_mem_cons_of_mark marks oneLine)
  unfold readBytes
  rw [Text.lines_of_oneLine oneText, decodeLenient_cons_of_mark marks,
    if_neg (List.cons_ne_nil _ _)]
  exact readLines_cons_eq_ok_iff

/-- Reworded bytes are read in lock step. -/
theorem Rewording.readBytes_eq {state : State} {bytes changed : List UInt8}
    (h : Rewording state bytes changed) {number : Nat} {hunks : List Hunk}
    (read : readBytes state number bytes = .ok hunks) (other : Nat) :
    readBytes state other changed = .ok hunks := by
  -- The numbers of the lines drift apart where lines come and go, so both are arbitrary.
  induction h generalizing number other hunks with
  | last oneLine => exact readLines_eq_ok_of_number read other
  | lastInBody owes marks oneOld oneNew =>
    obtain ⟨next, hunk, more, taken, done, rfl⟩ := (readBytes_cons_of_mark_iff marks oneOld).1 read
    rw [take_cons_of_owed owes] at taken
    exact (readBytes_cons_of_mark_iff marks oneNew).2
      ⟨next, hunk, more, taken, readLines_eq_ok_of_number done _, rfl⟩
  | keep oneLine taken tail ih =>
    obtain ⟨next, hunk, more, step, behind, rfl⟩ := (readBytes_append_feed_iff oneLine).1 read
    cases taken.symm.trans step
    exact (readBytes_append_feed_iff oneLine).2 ⟨_, _, more, taken, ih behind _, rfl⟩
  | @replace state _ _ mark old new _ _ owes marks oneOld oneNew taken tail ih =>
    obtain ⟨next, hunk, more, step, behind, rfl⟩ :=
      (readBytes_append_feed_iff (feed_not_mem_cons_of_mark marks oneOld)).1 read
    cases taken.symm.trans step
    have same : state.take (lineText (mark :: new)) = state.take (lineText (mark :: old)) := by
      rw [lineText_cons_of_mark marks, lineText_cons_of_mark marks]
      exact take_cons_of_owed owes _ _ _
    exact (readBytes_append_feed_iff (feed_not_mem_cons_of_mark marks oneNew)).2
      ⟨_, _, more, same.trans taken, ih behind _, rfl⟩
  | insert between oneLine idle tail ih =>
    exact (readBytes_append_feed_iff oneLine).2
      ⟨_, none, hunks, take_of_idle between idle, ih read _, rfl⟩
  | delete between oneLine idle tail ih =>
    obtain ⟨next, hunk, more, step, behind, rfl⟩ := (readBytes_append_feed_iff oneLine).1 read
    cases (take_of_idle between idle).symm.trans step
    exact ih behind _

/-- A diff with other bytes behind the marks of its bodies, and other lines that do not matter
between its hunks, has the same hunks. -/
theorem readDiff_of_rewording {bytes changed : List UInt8} {hunks : List Hunk}
    (read : readDiff (String.ofList (Text.decodeLenient bytes)) = .ok hunks)
    (h : Rewording .start bytes changed) :
    readDiff (String.ofList (Text.decodeLenient changed)) = .ok hunks := by
  unfold readDiff at read ⊢
  rw [String.toList_ofList] at read ⊢
  exact h.readBytes_eq read 0

/-- A diff of one edit, with a note between the name of the file and the hunk. -/
def editBelowNote (note removed added : List UInt8) : List UInt8 :=
  Text.encode "+++ b/f".toList ++ 0x0A :: (note ++ 0x0A ::
    (Text.encode "@@ -1 +1 @@".toList ++ 0x0A :: (0x2D :: removed ++ 0x0A :: 0x2B :: added)))

/-- Neither the note nor the lines of the body matter, with bytes that are no text and with a text
that looks like the name of another file. -/
theorem readDiff_of_rewording_editBelowNote :
    let bytes := editBelowNote (Text.encode "index".toList) (Text.encode "x".toList) []
    let changed := editBelowNote [0xFF] [0xE2, 0x82] (Text.encode "++ b/g".toList)
    readDiff (String.ofList (Text.decodeLenient bytes)) = .ok [⟨"f", ⟨1, 1⟩⟩] ∧
      Rewording .start bytes changed ∧
      readDiff (String.ofList (Text.decodeLenient changed)) = .ok [⟨"f", ⟨1, 1⟩⟩] := by
  intro bytes changed
  have read : readDiff (String.ofList (Text.decodeLenient bytes)) = .ok [⟨"f", ⟨1, 1⟩⟩] :=
    Outcome.eq_ok_of_toOption (by decide +kernel)
  have named : State.start.take (lineText (Text.encode "+++ b/f".toList)) =
      .ok (⟨.file "f", .nothing⟩, none) := Outcome.eq_ok_of_toOption (by decide +kernel)
  have announced : State.take ⟨.file "f", .nothing⟩ (lineText (Text.encode "@@ -1 +1 @@".toList)) =
      .ok (⟨.file "f", ⟨1, 1⟩⟩, some ⟨"f", ⟨1, 1⟩⟩) :=
    Outcome.eq_ok_of_toOption (by decide +kernel)
  have removed : State.take ⟨.file "f", ⟨1, 1⟩⟩ (lineText (0x2D :: Text.encode "x".toList)) =
      .ok (⟨.file "f", ⟨0, 1⟩⟩, none) := Outcome.eq_ok_of_toOption (by decide +kernel)
  have idleText : IsIdle (Text.decodeLenient (Text.encode "index".toList)) :=
    ⟨by decide +kernel, by decide +kernel, by decide +kernel⟩
  have idleFault : IsIdle (Text.decodeLenient [0xFF]) := ⟨by decide, by decide, by decide⟩
  have reworded : Rewording .start bytes changed := by
    refine .keep (by decide) named ?_
    refine .delete rfl (by decide) idleText (.insert rfl (by decide) idleFault ?_)
    refine .keep (by decide) announced ?_
    refine .replace (by decide) (by decide) (by decide) (by decide) removed ?_
    exact .lastInBody (by decide) (by decide) (by decide) (by decide)
  exact ⟨read, reworded, readDiff_of_rewording read reworded⟩

end CoChange.Hunk
