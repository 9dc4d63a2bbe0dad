import Pathwise.Command.Arguments
import Pathwise.Command.Basic
import Pathwise.Command.Flag
import Pathwise.Command.Help
import Pathwise.Command.Run
import Pathwise.Comparison.Aggregate
import Pathwise.Comparison.ControlFlow
import Pathwise.Comparison.Memory
import Pathwise.Comparison.Transform
import Pathwise.Config.Basic
import Pathwise.Config.Yaml
import Pathwise.Decimal.Binary
import Pathwise.Decimal.Reading
import Pathwise.Decimal.Shortest
import Pathwise.Digest.Keccak
import Pathwise.Document
import Pathwise.Domain.Basic
import Pathwise.Domain.Bounds
import Pathwise.Files.Name
import Pathwise.Files.Pattern
import Pathwise.Files.Tree
import Pathwise.History.Basic
import Pathwise.History.File
import Pathwise.History.Key
import Pathwise.Inspection
import Pathwise.Json.Basic
import Pathwise.Json.Decode
import Pathwise.Json.Reader
import Pathwise.Json.Writer
import Pathwise.Layer.Basic
import Pathwise.Loading
import Pathwise.Main
import Pathwise.Matching
import Pathwise.Observed
import Pathwise.Observed.Encoding
import Pathwise.Oracle.Basic
import Pathwise.Oracle.Choices
import Pathwise.Oracle.Pairing
import Pathwise.Oracle.Sampling
import Pathwise.Path.Basic
import Pathwise.Path.Builder
import Pathwise.Path.Error
import Pathwise.Path.Parse
import Pathwise.Path.Source
import Pathwise.Word
import Pathwise.Profile.Access
import Pathwise.Profile.Basic
import Pathwise.Profile.Transformation
import Pathwise.Program
import Pathwise.Proofs.Domain.Exactness
import Pathwise.Proofs.Domain.Limits
import Pathwise.Proofs.Domain.NormalForm
import Pathwise.Proofs.Domain.Permutation
import Pathwise.Proofs.Oracle.Cells
import Pathwise.Proofs.Oracle.Decision
import Pathwise.Proofs.Oracle.Enumeration
import Pathwise.Proofs.Path.Steps
import Pathwise.Proofs.Path.WellFormed
import Pathwise.Proofs.Session.Run
import Pathwise.Proofs.Term.Comparison
import Pathwise.Proofs.Term.Denotation
import Pathwise.Proofs.Term.Refinement
import Pathwise.Proofs.Term.Subterm
import Pathwise.Proofs.Term.Value
import Pathwise.Report.Basic
import Pathwise.Report.Encoding
import Pathwise.Report.Format
import Pathwise.Report.Render
import Pathwise.Report.Text
import Pathwise.SExpr.Basic
import Pathwise.SExpr.Reader
import Pathwise.SExpr.Token
import Pathwise.Session.Basic
import Pathwise.Session.Cache
import Pathwise.Session.Metrics
import Pathwise.Sorting
import Pathwise.Term.Basic
import Pathwise.Term.Eval
import Pathwise.Term.Op
import Pathwise.Text.Blank
import Pathwise.Text.Colour
import Pathwise.Text.Grapheme
import Pathwise.Text.Numeral
import Pathwise.Text.Printable
import Pathwise.Text.Quoted
import Pathwise.Text.Raw
import Pathwise.Text.Table
import Pathwise.Text.Width
import Pathwise.Text.Wrap
import Pathwise.Time.Duration
import Pathwise.Time.Instant
import Pathwise.Verdict
import Pathwise.Yaml.Character
import Pathwise.Yaml.Cursor
import Pathwise.Yaml.Decode
import Pathwise.Yaml.Fault
import Pathwise.Yaml.Node
import Pathwise.Yaml.Quoting
import Pathwise.Yaml.Reader
import Pathwise.Yaml.Scalar
import Pathwise.Yaml.Timestamp
import Pathwise.Yaml.Token.Basic
import Pathwise.Yaml.Token.Property
import Pathwise.Yaml.Token.Scalar
import Pathwise.Yaml.Token.Stream
import Pathwise.Yaml.Writer
import Pathwise.Proofs.Path.Guarantees
import Pathwise.Proofs.Comparison.Agreement
import Pathwise.Proofs.Comparison.AssertionOrder
import Pathwise.Proofs.Comparison.Relocation
import Pathwise.Proofs.Comparison.Subsequence
import Pathwise.Proofs.Comparison.Symmetry
import Pathwise.Proofs.History.Keys
import Pathwise.Proofs.History.Refinement
import Pathwise.Proofs.Session.Soundness
import Pathwise.Proofs.Matching.Greedy
import Pathwise.Proofs.Program.Verdict
import Pathwise.Proofs.Text.Delimited
import Pathwise.Proofs.Profile.Content
import Pathwise.Proofs.Session.Transparency
import Pathwise.Proofs.Term.Equality
import Pathwise.Proofs.Oracle.Pairing
import Pathwise.Proofs.Oracle.Binding
import Pathwise.Proofs.Term.Arrays
import Pathwise.Proofs.Oracle.Separation
import Pathwise.Proofs.Oracle.Symmetry
import Pathwise.Proofs.Matching.Completeness
import Pathwise.Proofs.Session.Bookkeeping
import Pathwise.Proofs.Program.Completeness
import Pathwise.Proofs.Path.Provenance
import Pathwise.Proofs.Term.Spelling
import Pathwise.Proofs.Path.RoundTrip
import Pathwise.Proofs.Profile.Identity
import Pathwise.Proofs.Observed.Grammar
import Pathwise.Proofs.Json.Numbers
import Pathwise.Proofs.Json.Strings
import Pathwise.Proofs.Observed.RoundTrip
import Pathwise.Proofs.Path.Assertions
import Pathwise.Proofs.Path.Epochs
import Pathwise.Proofs.Path.Literals
import Pathwise.Proofs.Decimal.Order
import Pathwise.Proofs.Program.Rows
import Pathwise.Proofs.Matching.Stability
import Pathwise.Proofs.SExpr.Semantics
import Pathwise.Proofs.Path.Expansion
import Pathwise.Proofs.Sorting
import Pathwise.Proofs.Profile.Classification
import Pathwise.Proofs.Comparison.Multiplicity
import Pathwise.Proofs.Loading.Numbering
import Pathwise.Proofs.History.Chronology
import Pathwise.Proofs.Oracle.Choices
import Pathwise.Proofs.SExpr.Layout
import Pathwise.Proofs.Path.Refusals
