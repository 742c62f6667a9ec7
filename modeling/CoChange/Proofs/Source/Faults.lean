import CoChange.Proofs.Directive.Held
import CoChange.Proofs.Rule.Mismatch
import CoChange.Source

/-!
# Where the directives of a file are wrong

The lines of a file that have a template are read twice, first for their keywords and then in
pairs. So a line with an unknown keyword is told before any line that fits no pair, and among each
kind the first one is told (`Flawed`). The fault of a file names such a line
(`rulesIn_points_at_flaw`).
-/

namespace CoChange

namespace Directive

variable {file : String} {templates : List Template} {line : Nat} {text : String}
  {changed : List Span} {directives : List Directive} {held : List (Nat × List String)}
  {flaw : DirectiveFlaw} {fault : Fault}

/-- What is wrong with the lines that have a template, given by their numbers and words, and the
line that is told. -/
inductive Flawed (held : List (Nat × List String)) : Nat → DirectiveFlaw → Prop
  | unknown {before after : List (Nat × List String)} {line : Nat} {words : List String}
      (eq : held = before ++ (line, words) :: after)
      (known : ∀ entry ∈ before, ¬ IsUnknown entry.2) (unknown : IsUnknown words) :
      Flawed held line (.unknown (words.headD ""))
  | misplaced {pairs : List (Directive × Directive)} {tail : List Directive} {line : Nat}
      {flaw : DirectiveFlaw} (eq : held = (inRow pairs ++ tail).map inWords)
      (each : ∀ pair ∈ pairs, IsPair pair) (stops : Stops tail line flaw) :
      Flawed held line flaw

theorem filled_of_ofLines {number : Nat} {lines : List (List Char)}
    (h : ofLines file templates number lines = .ok directives) : Filled directives := by
  intro directive mem argument listed
  have here : directive.inWords ∈ heldWords templates number lines :=
    ofLines_eq_ok_iff.1 h ▸ List.mem_map_of_mem mem
  exact filled_of_mem_heldWords here argument (List.mem_cons_of_mem _ listed)

/-- The directives of a text cannot be read exactly when a line is flawed, and this line is
told. -/
theorem scan_ofDirectives_eq_error_iff :
    (scan file templates text >>= Rule.ofDirectives file changed) = .error fault ↔
      ∃ line flaw, Flawed (heldWords templates 1 (Text.lines text.toList)) line flaw ∧
        fault = .badDirective file line flaw := by
  unfold scan
  rw [Outcome.bind_eq_error_iff]
  constructor
  · rintro (unread | ⟨directives, read, unpaired⟩)
    · obtain ⟨line, words, found, rfl⟩ := ofLines_eq_error_iff.1 unread
      obtain ⟨unknown, before, after, eq, known⟩ := List.find?_eq_some_iff_append.1 found
      refine ⟨line, _, .unknown eq (fun entry mem => ?_) (of_decide_eq_true unknown), rfl⟩
      simpa using known entry mem
    · obtain ⟨pairs, tail, line, flaw, rfl, each, stops, rfl⟩ :=
        (Rule.ofDirectives_eq_error_iff (filled_of_ofLines read)).1 unpaired
      exact ⟨line, flaw, .misplaced (ofLines_eq_ok_iff.1 read) each stops, rfl⟩
  · rintro ⟨line, flaw, flawed, rfl⟩
    cases flawed with
    | @unknown before after _ words eq known unknown =>
      refine .inl (ofLines_eq_error_iff.2 ⟨line, words, ?_, rfl⟩)
      refine List.find?_eq_some_iff_append.2 ⟨decide_eq_true unknown, before, after, eq, ?_⟩
      intro entry mem
      simpa using known entry mem
    | misplaced eq each stops =>
      have read := (@ofLines_eq_ok_iff file templates 1 _ _).2 eq
      refine .inr ⟨_, read, ?_⟩
      exact (Rule.ofDirectives_eq_error_iff (filled_of_ofLines read)).2
        ⟨_, _, line, flaw, rfl, each, stops, rfl⟩

/-! ## The line that is told -/

theorem Stops.exists_directive {tail : List Directive} (h : Stops tail line flaw) :
    ∃ directive ∈ tail, directive.line = line := by
  cases h with
  | strayEnd | badTarget | unclosedIf => exact ⟨_, List.mem_cons_self, rfl⟩
  | nestedIf | surplusArguments =>
    exact ⟨_, List.mem_cons_of_mem _ List.mem_cons_self, rfl⟩

theorem Flawed.exists_words (h : Flawed held line flaw) : ∃ words, (line, words) ∈ held := by
  cases h with
  | @unknown _ _ _ words eq => exact ⟨words, eq ▸ by simp⟩
  | misplaced eq each stops =>
    obtain ⟨directive, mem, rfl⟩ := stops.exists_directive
    exact ⟨directive.inWords.2, eq ▸ List.mem_map_of_mem (List.mem_append_right _ mem)⟩

theorem Flawed.exists_isUnknown_iff (h : Flawed held line flaw) :
    (∃ entry ∈ held, IsUnknown entry.2) ↔ ∃ keyword, flaw = .unknown keyword := by
  cases h with
  | @unknown _ _ _ words eq _ unknown =>
    exact ⟨fun _ => ⟨_, rfl⟩, fun _ => ⟨(line, words), eq ▸ by simp, unknown⟩⟩
  | misplaced eq each stops =>
    constructor
    · rintro ⟨entry, mem, unknown⟩
      obtain ⟨directive, -, rfl⟩ := List.mem_map.1 (eq ▸ mem)
      exact absurd unknown (not_isUnknown_inWords directive)
    · rintro ⟨keyword, rfl⟩
      cases stops

/-! ## The lines above -/

section

variable {before after : List (Nat × List String)} {first second : Nat × List String}
  {words : List String}

theorem filter_above (ordered : (before ++ (line, words) :: after).Pairwise (·.1 < ·.1)) :
    (before ++ (line, words) :: after).filter (·.1 < line) = before := by
  obtain ⟨-, behind, above⟩ := List.pairwise_append.1 ordered
  have kept : before.filter (·.1 < line) = before := by
    rw [List.filter_eq_self]
    intro entry mem
    exact decide_eq_true (above entry mem _ List.mem_cons_self)
  have dropped : ((line, words) :: after).filter (·.1 < line) = [] := by
    rw [List.filter_eq_nil_iff, List.forall_mem_cons]
    refine ⟨by simp, fun entry mem => ?_⟩
    have below := (List.pairwise_cons.1 behind).1 entry mem
    simp only [decide_eq_true_eq]
    omega
  rw [List.filter_append, kept, dropped, List.append_nil]

theorem le_or_ge_of_ordered (ordered : (before ++ first :: second :: after).Pairwise (·.1 < ·.1)) :
    ∀ entry ∈ before ++ first :: second :: after, entry.1 ≤ first.1 ∨ second.1 ≤ entry.1 := by
  obtain ⟨-, behind, above⟩ := List.pairwise_append.1 ordered
  have below := (List.pairwise_cons.1 (List.pairwise_cons.1 behind).2).1
  intro entry mem
  rcases List.mem_append.1 mem with mem | mem
  · exact .inl (Nat.le_of_lt (above entry mem first List.mem_cons_self))
  · rcases List.mem_cons.1 mem with rfl | mem
    · exact .inl (Nat.le_refl _)
    · rcases List.mem_cons.1 mem with rfl | mem
      · exact .inr (Nat.le_refl _)
      · exact .inr (Nat.le_of_lt (below entry mem))

end

/-- In a row of pairs each keyword stands once for each pair. -/
theorem countP_inRow {pairs : List (Directive × Directive)} (each : ∀ pair ∈ pairs, IsPair pair)
    (keyword : Keyword) :
    ((inRow pairs).map inWords).countP (fun entry => entry.2.headD "" = keyword.text) =
      pairs.length := by
  induction pairs with
  | nil => rfl
  | cons pair rest ih =>
    obtain ⟨isPair, others⟩ := List.forall_mem_cons.1 each
    have row : (inRow (pair :: rest)).map inWords =
        pair.1.inWords :: pair.2.inWords :: (inRow rest).map inWords := rfl
    rw [row, List.countP_cons, List.countP_cons, ih others, List.length_cons]
    simp only [inWords, isPair.opens, isPair.closes, List.headD_cons]
    cases keyword <;> rfl

/-- Between an IF and another one while it is open, no line has a template. -/
theorem Flawed.between_nestedIf {openLine : Nat} (h : Flawed held line (.nestedIf openLine))
    (ordered : held.Pairwise (·.1 < ·.1)) :
    openLine < line ∧ ∀ entry ∈ held, entry.1 ≤ openLine ∨ line ≤ entry.1 := by
  cases h with
  | misplaced eq each stops =>
    cases stops with
    | nestedIf named =>
      rw [List.map_append, List.map_cons, List.map_cons] at eq
      subst eq
      have behind := (List.pairwise_append.1 ordered).2.1
      exact ⟨(List.pairwise_cons.1 behind).1 _ List.mem_cons_self, le_or_ge_of_ordered ordered⟩

/-- Above an END that closes no rule, each IF has its END. -/
theorem Flawed.balanced_strayEnd (h : Flawed held line .strayEnd)
    (ordered : held.Pairwise (·.1 < ·.1)) :
    (held.filter (·.1 < line)).countP (fun entry => entry.2.headD "" = "IF") =
      (held.filter (·.1 < line)).countP fun entry => entry.2.headD "" = "END" := by
  cases h with
  | misplaced eq each stops =>
    cases stops with
    | strayEnd =>
      rw [List.map_append] at eq
      change held = _ ++ (line, _) :: _ at eq
      subst eq
      rw [filter_above ordered]
      exact (countP_inRow each .ifWord).trans (countP_inRow each .endWord).symm

end Directive

theorem TemplateTable.category_of_forPath {table : TemplateTable} {path : String} {fault : Fault}
    (h : table.forPath path = .error fault) : fault.category = .configuration := by
  unfold forPath at h
  split at h
  · cases h
    rfl
  · split at h
    · split at h <;> cases h
      rfl
    · cases h

namespace Source

variable {source : Source} {table : TemplateTable} {file text : String} {changed : List Span}
  {templates : List Template} {fault : Fault}

theorem rulesIn_eq_scan (known : table.forPath file = .ok templates)
    (read : source.read file = .ok text) :
    source.rulesIn table changed file =
      (Directive.scan file templates text >>= Rule.ofDirectives file changed) := by
  unfold rulesIn
  rw [known, read]
  rfl

/-- **A fault points at the right line.** When the directives of a file have a fault, it names the
file and one of its lines. This line has a template of the file, blanks at its ends aside, and it is
flawed as the fault says (`Directive.Flawed`): it is the first line with an unknown keyword, if there
is one, and stops a row of pairs otherwise. An IF is told with the line of the open rule, which is
the line with a template just above it, and an END without an open rule has as many lines above it
that start with IF as lines that start with END. Conversely, a flawed line is told with its flaw. -/
theorem rulesIn_points_at_flaw (read : source.read file = .ok text) :
    (∀ changed fault, source.rulesIn table changed file = .error fault →
      fault.category = .directives →
      ∃ templates line flaw, table.forPath file = .ok templates ∧
        fault = .badDirective file line flaw ∧
        (1 ≤ line ∧ line ≤ (Text.lines text.toList).length) ∧
        (∃ content, (Text.lines text.toList)[line - 1]? = some content ∧
          ∃ template ∈ templates, (template.body? (Text.trim content)).isSome) ∧
        let held := Directive.heldWords templates 1 (Text.lines text.toList)
        Directive.Flawed held line flaw ∧
        ((∃ entry ∈ held, Directive.IsUnknown entry.2) ↔ ∃ keyword, flaw = .unknown keyword) ∧
        (∀ openLine, flaw = .nestedIf openLine →
          openLine < line ∧ ∀ entry ∈ held, entry.1 ≤ openLine ∨ line ≤ entry.1) ∧
        (flaw = .strayEnd →
          (held.filter (·.1 < line)).countP (fun entry => entry.2.headD "" = "IF") =
            (held.filter (·.1 < line)).countP fun entry => entry.2.headD "" = "END")) ∧
    ∀ templates line flaw, table.forPath file = .ok templates →
      Directive.Flawed (Directive.heldWords templates 1 (Text.lines text.toList)) line flaw →
      ∀ changed, source.rulesIn table changed file = .error (.badDirective file line flaw) := by
  constructor
  · intro changed fault failed syntactic
    cases known : table.forPath file with
    | error other =>
      -- That there is no template is a fault of another category.
      rw [rulesIn, known] at failed
      cases failed
      rw [TemplateTable.category_of_forPath known] at syntactic
      cases syntactic
    | ok templates =>
      rw [rulesIn_eq_scan known read, Directive.scan_ofDirectives_eq_error_iff] at failed
      obtain ⟨line, flaw, flawed, rfl⟩ := failed
      obtain ⟨words, here⟩ := flawed.exists_words
      obtain ⟨low, content, body, found, inside, -⟩ := Directive.mem_heldWords_iff.1 here
      have high := (List.getElem?_eq_some_iff.1 found).1
      have ordered := Directive.ordered_heldWords templates 1 (Text.lines text.toList)
      obtain ⟨template, listed, matched⟩ := List.exists_of_findSome?_eq_some inside
      refine ⟨templates, line, flaw, rfl, rfl, ⟨low, by omega⟩, ?_, flawed,
        flawed.exists_isUnknown_iff, ?_, ?_⟩
      · exact ⟨content, found, template, listed, Option.isSome_iff_exists.2 ⟨body, matched⟩⟩
      · rintro openLine rfl
        exact flawed.between_nestedIf ordered
      · rintro rfl
        exact flawed.balanced_strayEnd ordered
  · intro templates line flaw known flawed changed
    rw [rulesIn_eq_scan known read, Directive.scan_ofDirectives_eq_error_iff]
    exact ⟨line, flaw, flawed, rfl⟩

/-- Two lines below the first pair do not fit, and the upper one is told. An unknown keyword is told
before both, although it stands below. -/
theorem rulesIn_points_at_flaw_nestedIf :
    let text := "#LINT.IF b.py\ny\n#LINT.END\n #LINT.IF c.py\n\n#LINT.IF d.py:\n#LINT.END a b"
    let longer := text ++ "\n#LINT.if"
    let source : Source := .ofTexts [("a.py", text), ("b.py", longer)]
    source.read "a.py" = .ok text ∧ source.read "b.py" = .ok longer ∧
      Directive.Flawed (Directive.heldWords [TemplateTable.hash] 1 (Text.lines text.toList)) 6
        (.nestedIf 4) ∧
      (∀ changed, source.rulesIn .builtIn changed "a.py" =
        .error (.badDirective "a.py" 6 (.nestedIf 4))) ∧
      ∀ changed, source.rulesIn .builtIn changed "b.py" =
        .error (.badDirective "b.py" 8 (.unknown "if")) := by
  intro text longer source
  have read : source.read "a.py" = .ok text := by decide +kernel
  have readLonger : source.read "b.py" = .ok longer := by decide +kernel
  have failed : source.rulesIn .builtIn [] "a.py" =
      .error (.badDirective "a.py" 6 (.nestedIf 4)) := by decide +kernel
  obtain ⟨told, all⟩ := @rulesIn_points_at_flaw _ .builtIn _ _ read
  obtain ⟨templates, line, flaw, known, eq, -, -, flawed, -⟩ := told [] _ failed rfl
  obtain ⟨-, rfl, rfl⟩ := Fault.badDirective.inj eq
  have hash : TemplateTable.builtIn.forPath "a.py" = .ok [TemplateTable.hash] := by decide +kernel
  obtain rfl := Except.ok.inj (known.symm.trans hash)
  refine ⟨read, readLonger, flawed, all _ 6 _ hash flawed, ?_⟩
  have held : Directive.heldWords [TemplateTable.hash] 1 (Text.lines longer.toList) =
      [(1, ["IF", "b.py"]), (3, ["END"]), (4, ["IF", "c.py"]), (6, ["IF", "d.py:"]),
        (7, ["END", "a", "b"])] ++ (8, ["if"]) :: [] := by decide +kernel
  have unknown : Directive.Flawed
      (Directive.heldWords [TemplateTable.hash] 1 (Text.lines longer.toList)) 8 (.unknown "if") :=
    .unknown held (by decide) (by decide)
  obtain ⟨-, all⟩ := @rulesIn_points_at_flaw _ .builtIn _ _ readLonger
  exact all [TemplateTable.hash] 8 _ (by decide +kernel) unknown

end Source

end CoChange
