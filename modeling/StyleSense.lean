import StyleSense.Assist.Completion
import StyleSense.Assist.Hover
import StyleSense.Assist.Notes
import StyleSense.Assist.Swatches
import StyleSense.Color.Basic
import StyleSense.Color.Named
import StyleSense.Color.Presentation
import StyleSense.Color.Reader
import StyleSense.CommandLine.Help
import StyleSense.CommandLine.Options
import StyleSense.CommandLine.Run
import StyleSense.Completion.Declaration
import StyleSense.Completion.Keyword
import StyleSense.Completion.Table
import StyleSense.Decimal.Double
import StyleSense.Decimal.Notation
import StyleSense.Decimal.Reader
import StyleSense.Decimal.Shortest
import StyleSense.Dictionary
import StyleSense.Document
import StyleSense.Evaluate
import StyleSense.Json.Basic
import StyleSense.Json.Number
import StyleSense.Json.Printer
import StyleSense.Json.Reader
import StyleSense.Json.Record
import StyleSense.Main
import StyleSense.Scope.Aliases
import StyleSense.Scope.Api
import StyleSense.Scope.Tracker
import StyleSense.Service.Cache
import StyleSense.Service.Encoding
import StyleSense.Service.ParserCommand
import StyleSense.Service.Reply
import StyleSense.Service.Request
import StyleSense.Service.Session
import StyleSense.Service.Settings
import StyleSense.Style.Name
import StyleSense.Style.Normalize
import StyleSense.Style.Preview
import StyleSense.Text.Blank
import StyleSense.Text.Cluster
import StyleSense.Text.ClusterTable
import StyleSense.Text.LineIndex
import StyleSense.Text.Measure
import StyleSense.Text.Offsets
import StyleSense.Toml.Reader
import StyleSense.Toml.Scalar
import StyleSense.Toml.Table
import StyleSense.Toml.Text
import StyleSense.Tree.Build
import StyleSense.Tree.Field
import StyleSense.Tree.Form
import StyleSense.Tree.Locate
import StyleSense.Tree.Node
import StyleSense.Tree.Reader
import StyleSense.Tree.Span
import StyleSense.Tree.Subtree
import StyleSense.Tree.Walk
import StyleSense.Value.Basic
import StyleSense.Value.Number
import StyleSense.Value.Operators
import StyleSense.Proofs.Text.Clusters
import StyleSense.Proofs.Text.Offsets
import StyleSense.Proofs.Tree.Order
import StyleSense.Proofs.Dictionary
import StyleSense.Proofs.Text.Lines
import StyleSense.Proofs.Document
import StyleSense.Proofs.Service.Cache
import StyleSense.Proofs.Assist.Notes
import StyleSense.Proofs.Assist.Pruning
import StyleSense.Proofs.Service.Coherence
import StyleSense.Proofs.Tree.Respan
import StyleSense.Proofs.Value.Likeness
import StyleSense.Proofs.Evaluate.Likeness
import StyleSense.Proofs.Evaluate.Learning
import StyleSense.Proofs.Tree.Trace
import StyleSense.Proofs.Assist.Frames
import StyleSense.Proofs.Scope.Parallel
import StyleSense.Proofs.Assist.Parallel
import StyleSense.Proofs.Assist.Placement
import StyleSense.Proofs.Assist.Relocation
import StyleSense.Proofs.Tree.Course
import StyleSense.Proofs.Tree.Downward
import StyleSense.Proofs.Tree.Halting
import StyleSense.Proofs.Service.Interference
import StyleSense.Proofs.Tree.Nesting
import StyleSense.Proofs.Tree.Held
import StyleSense.Proofs.Tree.Decoded
import StyleSense.Proofs.Assist.Ledger
import StyleSense.Proofs.Assist.Scoping
import StyleSense.Proofs.Color.Presentation
import StyleSense.Proofs.Service.Presentations
import StyleSense.Proofs.Assist.Foreign
import StyleSense.Proofs.Assist.Agreement
import StyleSense.Proofs.Text.Cuts
import StyleSense.Proofs.Completion.Keyword
import StyleSense.Proofs.Assist.Edits
import StyleSense.Proofs.Completion.Sheet
import StyleSense.Proofs.Completion.Exact
import StyleSense.Proofs.Completion.Safety
import StyleSense.Proofs.Service.Refusal
import StyleSense.Proofs.Service.Script
import StyleSense.Proofs.Service.Setup
import StyleSense.Proofs.Service.Overlap
import StyleSense.Proofs.Color.Written
import StyleSense.Proofs.Evaluate.Locality
import StyleSense.Proofs.Assist.Descent
import StyleSense.Proofs.Assist.Exposure
import StyleSense.Proofs.Assist.Readings
import StyleSense.Proofs.Assist.Swatches
import StyleSense.Proofs.Assist.Hovered
import StyleSense.Proofs.Assist.KeyPath
import StyleSense.Proofs.Tree.Exchange
import StyleSense.Proofs.Evaluate.Exchange
import StyleSense.Proofs.Evaluate.Inlining
import StyleSense.Proofs.Evaluate.Expansion
import StyleSense.Proofs.Evaluate.Reference
import StyleSense.Proofs.Text.Numeral
import StyleSense.Proofs.Evaluate.Index
import StyleSense.Proofs.Decimal.Reader
import StyleSense.Proofs.Value.Number
import StyleSense.Proofs.Style.Preview
import StyleSense.Proofs.Style.Selector
import StyleSense.Proofs.Style.Normalize
import StyleSense.Proofs.Scope.Aliases
import StyleSense.Proofs.Scope.Discipline
import StyleSense.Proofs.Text.Positions
import StyleSense.Proofs.Text.Trivia
import StyleSense.Proofs.Style.Zeros
import StyleSense.Proofs.Evaluate.Bigint
import StyleSense.Proofs.Tree.References
import StyleSense.Proofs.Decimal.Notation
import StyleSense.Proofs.Text.Search
import StyleSense.Proofs.Tree.Locate
import StyleSense.Proofs.Style.Name
import StyleSense.Proofs.Tree.Join
