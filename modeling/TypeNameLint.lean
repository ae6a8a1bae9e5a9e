import TypeNameLint.Analysis.Basic
import TypeNameLint.Analysis.File
import TypeNameLint.Analysis.Run
import TypeNameLint.Ban.Builtin
import TypeNameLint.Ban.Options
import TypeNameLint.Ban.Rule
import TypeNameLint.Ban.Setting
import TypeNameLint.Ban.Spec
import TypeNameLint.Ban.Table
import TypeNameLint.CommandLine.Arguments
import TypeNameLint.CommandLine.Catalogue
import TypeNameLint.CommandLine.ConfigSource
import TypeNameLint.CommandLine.Invocation
import TypeNameLint.CommandLine.Print
import TypeNameLint.CommandLine.Session
import TypeNameLint.CommandLine.Template
import TypeNameLint.Config
import TypeNameLint.Data.OrderedMap
import TypeNameLint.Data.Problem
import TypeNameLint.Data.Record
import TypeNameLint.Data.Value
import TypeNameLint.Decimal.Layout
import TypeNameLint.Decimal.Shortest
import TypeNameLint.Directive
import TypeNameLint.Edit
import TypeNameLint.Exclude
import TypeNameLint.FileStore
import TypeNameLint.Glob
import TypeNameLint.Ignore.Pattern
import TypeNameLint.Ignore.Rules
import TypeNameLint.Ignore.Scope
import TypeNameLint.Json.Printer
import TypeNameLint.Json.Reader
import TypeNameLint.Main
import TypeNameLint.Path
import TypeNameLint.Proofs.Analysis.Absence
import TypeNameLint.Proofs.Analysis.Discovery
import TypeNameLint.Proofs.Analysis.Exclusion
import TypeNameLint.Proofs.Analysis.FixCount
import TypeNameLint.Proofs.Analysis.Lint
import TypeNameLint.Proofs.Analysis.ReportOrder
import TypeNameLint.Proofs.Analysis.Requests
import TypeNameLint.Proofs.Analysis.Rounds
import TypeNameLint.Proofs.Analysis.Settled
import TypeNameLint.Proofs.Analysis.Spelling
import TypeNameLint.Proofs.Analysis.Stopping
import TypeNameLint.Proofs.Analysis.Visits
import TypeNameLint.Proofs.Ban.Collecting
import TypeNameLint.Proofs.Ban.Collisions
import TypeNameLint.Proofs.Ban.EmptyLiterals
import TypeNameLint.Proofs.Ban.Findings
import TypeNameLint.Proofs.Ban.Formatting
import TypeNameLint.Proofs.Ban.Merging
import TypeNameLint.Proofs.Ban.Reasons
import TypeNameLint.Proofs.Ban.Shapes
import TypeNameLint.Proofs.Ban.Verdicts
import TypeNameLint.Proofs.CommandLine.Nearest
import TypeNameLint.Proofs.CommandLine.Precedence
import TypeNameLint.Proofs.CommandLine.Reopening
import TypeNameLint.Proofs.CommandLine.Root
import TypeNameLint.Proofs.CommandLine.Severity
import TypeNameLint.Proofs.Config.Sections
import TypeNameLint.Proofs.Data.Lists
import TypeNameLint.Proofs.Data.OrderedMap
import TypeNameLint.Proofs.Data.Record
import TypeNameLint.Proofs.Data.Sorting
import TypeNameLint.Proofs.Data.Steps
import TypeNameLint.Proofs.Data.Value
import TypeNameLint.Proofs.Directive.Comments
import TypeNameLint.Proofs.Directive.Deciding
import TypeNameLint.Proofs.Directive.Literals
import TypeNameLint.Proofs.Directive.Marker
import TypeNameLint.Proofs.Directive.NextLine
import TypeNameLint.Proofs.Directive.Reach
import TypeNameLint.Proofs.Directive.RoundTrip
import TypeNameLint.Proofs.Edit.Rearrangement
import TypeNameLint.Proofs.Edit.Selection
import TypeNameLint.Proofs.Edit.Splice
import TypeNameLint.Proofs.Edit.Weight
import TypeNameLint.Proofs.Edit.Words
import TypeNameLint.Proofs.Exclude.Directories
import TypeNameLint.Proofs.Exclude.Fallback
import TypeNameLint.Proofs.Exclude.Locality
import TypeNameLint.Proofs.FileStore.Content
import TypeNameLint.Proofs.FileStore.Descent
import TypeNameLint.Proofs.FileStore.Passage
import TypeNameLint.Proofs.FileStore.Removal
import TypeNameLint.Proofs.Glob.Reading
import TypeNameLint.Proofs.Ignore.RuleFiles
import TypeNameLint.Proofs.Json.RoundTrip
import TypeNameLint.Proofs.Json.Scalars
import TypeNameLint.Proofs.Path.Below
import TypeNameLint.Proofs.Path.Components
import TypeNameLint.Proofs.Path.Order
import TypeNameLint.Proofs.Path.Reported
import TypeNameLint.Proofs.Path.Steps
import TypeNameLint.Proofs.Report.Lossless
import TypeNameLint.Proofs.Report.Order
import TypeNameLint.Proofs.Report.Quoting
import TypeNameLint.Proofs.Text.LineEnds
import TypeNameLint.Proofs.Text.Occurrences
import TypeNameLint.Proofs.Text.Offsets
import TypeNameLint.Proofs.Text.Pieces
import TypeNameLint.Proofs.Text.Trimming
import TypeNameLint.Proofs.Toml.Keys
import TypeNameLint.Proofs.Tree.Alike
import TypeNameLint.Proofs.Tree.Comments
import TypeNameLint.Proofs.Tree.Order
import TypeNameLint.Proofs.Tree.Places
import TypeNameLint.Proofs.Tree.References
import TypeNameLint.Proofs.Tree.Traversal
import TypeNameLint.Report.Basic
import TypeNameLint.Report.Json
import TypeNameLint.Report.Snippet
import TypeNameLint.Report.Summary
import TypeNameLint.Report.Text
import TypeNameLint.Report.Wrap
import TypeNameLint.Rule
import TypeNameLint.Text.Blank
import TypeNameLint.Text.Bytes
import TypeNameLint.Text.Hex
import TypeNameLint.Text.Lines
import TypeNameLint.Text.Quoted
import TypeNameLint.Text.Search
import TypeNameLint.Text.Visible
import TypeNameLint.Text.Width
import TypeNameLint.Toml.Document
import TypeNameLint.Toml.Moment
import TypeNameLint.Toml.Number
import TypeNameLint.Toml.Table
import TypeNameLint.Toml.Text
import TypeNameLint.Tree.Basic
import TypeNameLint.Tree.Cursor
import TypeNameLint.Tree.TypeUse
