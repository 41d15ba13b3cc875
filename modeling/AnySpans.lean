import AnySpans.Check.Answers
import AnySpans.Check.File
import AnySpans.Check.Run
import AnySpans.CommandLine.Arguments
import AnySpans.CommandLine.Bounds
import AnySpans.Decoding.Mismatch
import AnySpans.Decoding.Record
import AnySpans.Documents.Debouncer
import AnySpans.Documents.Registry
import AnySpans.Documents.Snapshot
import AnySpans.Documents.Table
import AnySpans.Files.Path
import AnySpans.Files.Store
import AnySpans.Grammar.Contexts
import AnySpans.Grammar.Items
import AnySpans.Grammar.Production
import AnySpans.Grammar.Rule
import AnySpans.Grammar.Script
import AnySpans.Grammar.States
import AnySpans.Json.Reader
import AnySpans.Json.Value
import AnySpans.Json.Writer
import AnySpans.Lexical.Layout
import AnySpans.Lexical.Pattern
import AnySpans.Lexical.Scan
import AnySpans.Lines.Fault
import AnySpans.Lines.Interval
import AnySpans.Lines.IntervalSet
import AnySpans.Main
import AnySpans.Number.Count
import AnySpans.Number.Decimal
import AnySpans.Number.Double
import AnySpans.Number.Scaled
import AnySpans.Parsing.Parse
import AnySpans.Parsing.Recovery
import AnySpans.Parsing.Reduce
import AnySpans.Parsing.Stack
import AnySpans.Parsing.Subtree
import AnySpans.Passes.Analyzer
import AnySpans.Passes.Fanout
import AnySpans.Passes.Hosted
import AnySpans.Passes.Schedule
import AnySpans.Passes.Scripted
import AnySpans.Passes.Service
import AnySpans.Passes.World
import AnySpans.Report.Finding
import AnySpans.Report.Windows
import AnySpans.Server.Client
import AnySpans.Server.Command
import AnySpans.Server.Connection
import AnySpans.Server.Dialogue
import AnySpans.Server.Discovery
import AnySpans.Server.Exchange
import AnySpans.Server.Failure
import AnySpans.Server.Frame
import AnySpans.Server.Location
import AnySpans.Server.Message
import AnySpans.Server.Scripted
import AnySpans.Settings.Config
import AnySpans.Settings.Load
import AnySpans.Settings.Style
import AnySpans.Signature.AnyType
import AnySpans.Signature.Diagnostic
import AnySpans.Signature.Hover
import AnySpans.Syntax.Concrete
import AnySpans.Syntax.Dialect
import AnySpans.Syntax.Lower
import AnySpans.Syntax.Parse
import AnySpans.Syntax.Tree
import AnySpans.Syntax.Walk
import AnySpans.Text.Cursor
import AnySpans.Text.LineIndex
import AnySpans.Text.Lines
import AnySpans.Text.Name
import AnySpans.Text.Position
import AnySpans.Text.Quoted
import AnySpans.Text.Source
import AnySpans.Text.Span
import AnySpans.Text.Units
import AnySpans.Text.Word
import AnySpans.Toml.Excerpt
import AnySpans.Toml.Flaw
import AnySpans.Toml.Moment
import AnySpans.Toml.Reader
import AnySpans.Toml.Scalar
import AnySpans.Toml.Value
import AnySpans.Vue.Buffer
import AnySpans.Vue.Mask
import AnySpans.Vue.Script
import AnySpans.Vue.Tag
import AnySpans.Vue.Template
import AnySpans.Proofs.Lines
import AnySpans.Proofs.Outline
import AnySpans.Proofs.Lowering
import AnySpans.Proofs.Publishing
import AnySpans.Proofs.Arenas
import AnySpans.Proofs.Rendering
import AnySpans.Proofs.Paging
import AnySpans.Proofs.Buffers
import AnySpans.Proofs.Frames
import AnySpans.Proofs.Responses
import AnySpans.Proofs.Clients
import AnySpans.Proofs.OpenFiles
import AnySpans.Proofs.Questions
import AnySpans.Proofs.LineSets
import AnySpans.Proofs.Histories
import AnySpans.Proofs.Independence
import AnySpans.Proofs.Parentheses
import AnySpans.Proofs.WellFormed
import AnySpans.Proofs.Identifiers
import AnySpans.Proofs.Bookkeeping
import AnySpans.Proofs.Selection
import AnySpans.Proofs.WholeDocuments
import AnySpans.Proofs.KeptTrees
import AnySpans.Proofs.Endings
import AnySpans.Proofs.Cancelled
import AnySpans.Proofs.Cancellation
import AnySpans.Proofs.Schedules
import AnySpans.Proofs.Answering
import AnySpans.Proofs.Progress
import AnySpans.Proofs.Timetables
import AnySpans.Proofs.Exchanges
import AnySpans.Proofs.Releases
import AnySpans.Proofs.Servers
import AnySpans.Proofs.Distinct
import AnySpans.Proofs.Inquiries
import AnySpans.Proofs.Numerals
import AnySpans.Proofs.RoundTrips
import AnySpans.Proofs.Matches
import AnySpans.Proofs.RequestLines
import AnySpans.Proofs.Scripts
import AnySpans.Proofs.Templates
import AnySpans.Proofs.Findings
import AnySpans.Proofs.Inspections
import AnySpans.Proofs.Obliging
import AnySpans.Proofs.PageSizes
import AnySpans.Proofs.ReportedNames
import AnySpans.Proofs.Windows
import AnySpans.Proofs.IntervalLists
import AnySpans.Proofs.FirstFlaws
import AnySpans.Proofs.LineEndings
import AnySpans.Proofs.KnownKeys
import AnySpans.Proofs.Debouncing
