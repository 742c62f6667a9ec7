import CoChange.Proofs.Directive.Inscription
import CoChange.Proofs.Exploration.Course
import CoChange.Proofs.Lint.EndToEnd
import CoChange.Proofs.Text.Endings

/-!
# Line endings and reports

Directives are looked for in trimmed lines, so a file has the same ones, or the same fault, when
its lines get other endings and blanks around them (`Directive.scan_of_relaid`). The lines of a diff
are not trimmed, but a diff without carriage returns keeps its lines when some of them get one
before their line feed (`Hunk.readDiff_of_relaid`). So nothing that linting does depends on the line
endings of the diff or of the files (`lint_of_relaid`).
-/

namespace CoChange

open Text (IsGap Relaid withReturns)

/-! ## Files -/

namespace Directive

theorem ofLines_of_map_trim_eq {file : String} {templates : List Template} {number : Nat}
    {lines others : List (List Char)} (same : lines.map Text.trim = others.map Text.trim) :
    ofLines file templates number lines = ofLines file templates number others := by
  induction lines generalizing number others with
  | nil =>
    obtain rfl := List.map_eq_nil_iff.1 same.symm
    rfl
  | cons line lines ih =>
    obtain ⟨other, others, rfl, here, behind⟩ := List.map_eq_cons_iff.1 same.symm
    rw [ofLines, ofLines, ofLine_congr here.symm, ih behind.symm]

theorem scan_of_relaid {text changed : String} (h : Relaid IsGap text.toList changed.toList)
    (file : String) (templates : List Template) :
    scan file templates changed = scan file templates text :=
  ofLines_of_map_trim_eq h.map_trim_lines

end Directive

namespace Source

/-- Two sources of the same files. The second one has them with other line endings and with blanks
around their lines. -/
structure IsRelaid (source other : Source) : Prop where
  texts : ∀ name, Option.Rel (fun text changed => Relaid IsGap text.toList changed.toList)
    (source.texts.get? name) (other.texts.get? name)
  failure : source.failure = other.failure

variable {source other : Source}

theorem IsRelaid.rulesIn_eq (h : IsRelaid source other) (table : TemplateTable)
    (changed : List Span) (file : String) :
    other.rulesIn table changed file = source.rulesIn table changed file := by
  unfold rulesIn read
  cases table.forPath file with
  | error fault => rfl
  | ok templates =>
    generalize found : source.texts.get? file = text, foundOther : other.texts.get? file = textOther
    have texts := h.texts file
    rw [found, foundOther] at texts
    cases texts with
    | none => rw [h.failure]
    | some laid =>
      show (Directive.scan file templates _ >>= _) = (Directive.scan file templates _ >>= _)
      rw [Directive.scan_of_relaid laid]

theorem get?_texts_ofTexts_map (f : String → String) (files : List (String × String))
    (name : String) :
    (ofTexts (files.map fun file => (file.1, f file.2))).texts.get? name =
      ((ofTexts files).texts.get? name).map f := by
  have each := Catalog.get?_ofList_map f
    (files.map fun file => (Path.normalize file.1, file.2)) name
  rw [List.map_map] at each
  unfold ofTexts
  rw [List.map_map]
  exact each

theorem isRelaid_withReturns (files : List (String × String)) :
    IsRelaid (.ofTexts files)
      (.ofTexts (files.map fun file => (file.1, String.ofList (withReturns file.2.toList)))) := by
  refine ⟨fun name => ?_, rfl⟩
  rw [get?_texts_ofTexts_map fun text => String.ofList (withReturns text.toList)]
  cases (ofTexts files).texts.get? name with
  | none => exact .none
  | some text =>
    refine .some ?_
    rw [String.toList_ofList]
    exact Text.relaid_withReturns (by decide) text.toList

end Source

/-! ## Diffs -/

theorem Hunk.readDiff_of_relaid {diff changed : String} (noReturn : '\r' ∉ diff.toList)
    (h : Relaid (· = []) diff.toList changed.toList) : readDiff changed = readDiff diff := by
  unfold readDiff
  rw [h.lines_eq noReturn]

/-! ## Reports -/

namespace Lint

/-- Linting asks for the same files, reports the same events and comes to the same outcome. -/
theorem lint_eq_of_relaid {source other : Source} {diff changed : String} (options : Options)
    (files : source.IsRelaid other) (noReturn : '\r' ∉ diff.toList)
    (laid : Relaid (· = []) diff.toList changed.toList) :
    options.lint other changed = options.lint source diff := by
  unfold Options.lint
  rw [Hunk.readDiff_of_relaid noReturn laid]
  cases Hunk.readDiff diff with
  | error fault => rfl
  | ok hunks =>
    dsimp only
    rw [Exploration.explore_congr fun file => files.rulesIn_eq options.table _ file]

/-- **Line endings do not matter.** A file has the same directives, or the same fault, when its
lines get other endings and blanks around them. A diff without carriage returns has the same hunks,
or the same fault, when some of its lines get one before their line feed. So both may be done at
once to a diff and to the files that it changes without any effect on linting; in particular a
carriage return may be put before every line feed. -/
theorem lint_of_relaid :
    (∀ text changed : String, Relaid IsGap text.toList changed.toList → ∀ file templates,
      Directive.scan file templates changed = Directive.scan file templates text) ∧
    (∀ diff changed : String, '\r' ∉ diff.toList → Relaid (· = []) diff.toList changed.toList →
      Hunk.readDiff changed = Hunk.readDiff diff) ∧
    (∀ (options : Options) (source other : Source) (diff changed : String),
      source.IsRelaid other → '\r' ∉ diff.toList → Relaid (· = []) diff.toList changed.toList →
      options.lint other changed = options.lint source diff) ∧
    ∀ (options : Options) (files : List (String × String)) (diff : String), '\r' ∉ diff.toList →
      options.lint
          (.ofTexts (files.map fun file => (file.1, String.ofList (withReturns file.2.toList))))
          (String.ofList (withReturns diff.toList)) =
        options.lint (.ofTexts files) diff := by
  refine ⟨?_, ?_, ?_, ?_⟩
  · exact fun text changed laid file templates => Directive.scan_of_relaid laid file templates
  · exact fun diff changed noReturn laid => Hunk.readDiff_of_relaid noReturn laid
  · exact fun options source other diff changed => lint_eq_of_relaid options
  · intro options files diff noReturn
    refine lint_eq_of_relaid options (Source.isRelaid_withReturns files) noReturn ?_
    rw [String.toList_ofList]
    exact @Text.relaid_withReturns (· = []) rfl diff.toList

/-- The two files, with a carriage return before each line feed. -/
def returnedFiles : Source :=
  .ofTexts [("a.py", "#LINT.IF b.py\r\nx\r\n#LINT.END\r\n"),
    ("b.py", "#LINT.IF\r\ny\r\n#LINT.END\r\n")]

/-- A text with blanks around two of its lines and other endings, and a diff of which one line gets
a carriage return, or all of them do. -/
theorem lint_of_relaid_mixed :
    let text := "#LINT.IF b.py\nx\n#LINT.END"
    let indented := "\t#LINT.IF b.py \r\nx\n #LINT.END\r"
    let partly := "+++ b/a.py\r\n@@ -2 +2 @@\n-w\n+x\n"
    let wholly := "+++ b/a.py\r\n@@ -2 +2 @@\r\n-w\r\n+x\r\n"
    let options : Options := ⟨.builtIn, .all⟩
    let report : Report :=
      ⟨1, 2, 2, [⟨⟨"a.py", ⟨1, 3⟩, [⟨some "b.py", none⟩], none, true⟩, [0]⟩]⟩
    Relaid IsGap text.toList indented.toList ∧
      Directive.scan "a.py" [TemplateTable.hash] indented =
        .ok [⟨.ifWord, ["b.py"], 1⟩, ⟨.endWord, [], 3⟩] ∧
      '\r' ∉ oneEdit.toList ∧ Relaid (· = []) oneEdit.toList partly.toList ∧
      Hunk.readDiff partly = .ok [⟨"a.py", ⟨2, 2⟩⟩] ∧ twoFiles.IsRelaid returnedFiles ∧
      (options.lint returnedFiles partly).outcome = .ok report ∧
      (options.lint returnedFiles wholly).outcome = .ok report := by
  intro text indented partly wholly options report
  obtain ⟨scans, reads, lints, lintsAll⟩ := lint_of_relaid
  have laid : Relaid IsGap text.toList indented.toList := by
    have pieces := @Relaid.line IsGap "#LINT.IF b.py".toList ['\t'] [' '] _ _ _ _
      (by decide) (by decide) (by decide) .feed .returnFeed <|
      @Relaid.line IsGap ['x'] [] [] _ _ _ _ (by decide) (by decide) (by decide) .feed .feed <|
      @Relaid.last IsGap "#LINT.END".toList [' '] ['\r'] (by decide) (by decide) (by decide)
        (by decide)
    simpa [text, indented] using pieces
  have returned : Relaid (· = []) oneEdit.toList partly.toList := by
    have pieces := @Relaid.line (· = []) "+++ b/a.py".toList [] [] _ _ _ _
      (by decide) rfl rfl .feed .returnFeed <|
      @Relaid.line (· = []) "@@ -2 +2 @@".toList [] [] _ _ _ _ (by decide) rfl rfl .feed .feed <|
      @Relaid.line (· = []) "-w".toList [] [] _ _ _ _ (by decide) rfl rfl .feed .feed <|
      @Relaid.line (· = []) "+x".toList [] [] _ _ _ _ (by decide) rfl rfl .feed .feed .nil
    simpa [oneEdit, partly] using pieces
  have files : twoFiles.IsRelaid returnedFiles := Source.isRelaid_withReturns _
  have noReturn : '\r' ∉ oneEdit.toList := by decide +kernel
  have linted : (options.lint twoFiles oneEdit).outcome = .ok report :=
    Outcome.eq_ok_of_toOption (by decide +kernel)
  have scanned : Directive.scan "a.py" [TemplateTable.hash] text =
      .ok [⟨.ifWord, ["b.py"], 1⟩, ⟨.endWord, [], 3⟩] :=
    Outcome.eq_ok_of_toOption (by decide +kernel)
  have read : Hunk.readDiff oneEdit = .ok [⟨"a.py", ⟨2, 2⟩⟩] :=
    Outcome.eq_ok_of_toOption (by decide +kernel)
  refine ⟨laid, ?_, noReturn, returned, ?_, files, ?_, ?_⟩
  · rw [scans _ _ laid, scanned]
  · rw [reads _ _ noReturn returned, read]
  · rw [lints options _ _ _ _ files noReturn returned, linted]
  · have both := lintsAll options [("a.py", "#LINT.IF b.py\nx\n#LINT.END\n"),
      ("b.py", "#LINT.IF\ny\n#LINT.END\n")] oneEdit noReturn
    have diff : String.ofList (withReturns oneEdit.toList) = wholly := by decide +kernel
    rw [diff] at both
    exact (congrArg LintRun.outcome both).trans linted

end Lint

end CoChange
