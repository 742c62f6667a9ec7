import CoChange.Disk.Tree
import CoChange.Main
import CoChange.Proofs.Hunk.Edits
import CoChange.Proofs.Hunk.Concatenation
import CoChange.Proofs.Hunk.Surplus
import CoChange.Proofs.Verdict.SelfTargets
import CoChange.Proofs.Hunk.Grammar
import CoChange.Proofs.Lint.Filters
import CoChange.Proofs.Source.Blocks
import CoChange.Proofs.Exploration.Course
import CoChange.Proofs.Exploration.Distance
import CoChange.Proofs.Lint.Coverage
import CoChange.Proofs.Lint.Endings
import CoChange.Proofs.Hunk.Rewording
import CoChange.Proofs.Source.Order
import CoChange.Proofs.Template.Liveness
import CoChange.Proofs.Template.Registration
import CoChange.Proofs.Path.Equivalence
import CoChange.Proofs.Hunk.PlainName
import CoChange.Proofs.Source.Faults
import CoChange.Proofs.Verdict.Relocation
import CoChange.Proofs.Report.RoundTrip
import CoChange.Proofs.CommandLine.Stages
