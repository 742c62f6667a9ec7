import CoChange.Hunk.Reader
import CoChange.PathFilter
import CoChange.Report

/-!
# Linting a diff

The changed files that the filter admits are explored together with everything their targets lead
to, and the rules found are judged. The spans of files that the filter leaves out still count when
a target leads there.
-/

namespace CoChange

/-- The course and the outcome of linting. -/
structure LintRun where
  /-- The files that were asked for. -/
  asked : List String
  events : List Event
  outcome : Except Fault Report

/-- What a run works with. -/
structure Options where
  table : TemplateTable
  filter : PathFilter

namespace Options

/-- The changed files that the filter admits. -/
def admitted (options : Options) (changes : Changes) : List String :=
  changes.names.filter options.filter.admits

/-- The events for the changed files that the filter leaves out. -/
def skippedEvents (options : Options) (changes : Changes) : List Event :=
  (changes.names.filter (!options.filter.admits ·)).map .skippedFile

/-- Lints a diff against the files of a source. -/
def lint (options : Options) (source : Source) (diff : String) : LintRun :=
  match Hunk.readDiff diff with
  | .error fault => ⟨[], [], .error fault⟩
  | .ok hunks =>
    let changes := Changes.ofHunks hunks
    let skipped := options.skippedEvents changes
    let exploration :=
      Exploration.explore source options.table changes (options.admitted changes)
    match exploration.outcome with
    | .error fault => ⟨exploration.asked, skipped ++ exploration.events, .error fault⟩
    | .ok map =>
      let verdict := Verdict.ofMap map
      let report := Report.ofVerdict changes map verdict
      { asked := exploration.asked
        events :=
          skipped ++ exploration.events ++ verdict.events ++ [report.finishedEvent hunks]
        outcome := .ok report }

end Options

end CoChange
