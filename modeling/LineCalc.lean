import LineCalc.Text.Ranges
import LineCalc.Text.Blank
import LineCalc.Text.Digit
import LineCalc.Text.Printable
import LineCalc.Text.Quoted
import LineCalc.Binary64
import LineCalc.Decimal.Basic
import LineCalc.Decimal.Nearest
import LineCalc.Decimal.Shortest
import LineCalc.Decimal.Layout
import LineCalc.Decimal.Numeral
import LineCalc.Json.Basic
import LineCalc.Json.Document
import LineCalc.Json.Inline
import LineCalc.Json.Reader
import LineCalc.Token
import LineCalc.Cursor
import LineCalc.Lexeme
import LineCalc.Expr.Basic
import LineCalc.Expr.Evaluation
import LineCalc.Expr.Written
import LineCalc.Grammar
import LineCalc.Reading
import LineCalc.Counter
import LineCalc.Chain
import LineCalc.Settings
import LineCalc.Line
import LineCalc.Session
import LineCalc.SelfCheck
import LineCalc.CommandLine.Arguments
import LineCalc.CommandLine.Invocation
import LineCalc.CommandLine.Run
import LineCalc.Main
import LineCalc.Proofs.Text.Classes
import LineCalc.Proofs.Settings
import LineCalc.Proofs.Cutting.Number
import LineCalc.Proofs.Cutting.Tokens
import LineCalc.Proofs.Decimal.Numeral
import LineCalc.Proofs.Reading.Passage
import LineCalc.Proofs.Reading.Course
import LineCalc.Proofs.Reading.Derivation
import LineCalc.Proofs.Reading.Acceptance
import LineCalc.Proofs.Evaluation.Value
import LineCalc.Proofs.Evaluation.Tasks
import LineCalc.Proofs.Line.Outcome
import LineCalc.Proofs.Line.Policies
import LineCalc.Proofs.Cutting.Uniqueness
import LineCalc.Proofs.Reading.Verdict
import LineCalc.Proofs.Reading.Viability
import LineCalc.Proofs.Cutting.Spaced
import LineCalc.Proofs.Cutting.Signs
import LineCalc.Proofs.Evaluation.Reduction
import LineCalc.Proofs.Evaluation.Context
import LineCalc.Proofs.Reading.Group
import LineCalc.Proofs.Line.Derived
import LineCalc.Proofs.Line.Flat
import LineCalc.Proofs.Line.Written
import LineCalc.Proofs.Line.Group
import LineCalc.Proofs.Session.Output
import LineCalc.Proofs.CommandLine.FrontEnds
import LineCalc.Proofs.CommandLine.Delivery
import LineCalc.Proofs.Session.Isolation
import LineCalc.Proofs.Cutting.TrailingDot
import LineCalc.Proofs.Line.Stray
import LineCalc.Proofs.Line.TrailingDot
import LineCalc.Proofs.Binary64.Sign
import LineCalc.Proofs.Decimal.Value
import LineCalc.Proofs.Decimal.Rounding
import LineCalc.Proofs.Decimal.Parts
import LineCalc.Proofs.Decimal.Shortest
import LineCalc.Proofs.Decimal.Typed
import LineCalc.Proofs.Line.Display
import LineCalc.Proofs.Json.Grammar
import LineCalc.Proofs.Json.Reader
import LineCalc.Proofs.Json.Document
import LineCalc.Proofs.CommandLine.Document
import LineCalc.Proofs.Cutting.Spacing
import LineCalc.Proofs.Reading.Depth
import LineCalc.Proofs.Line.Depth
import LineCalc.Proofs.Decimal.Search
import LineCalc.Proofs.Decimal.Fewest
import LineCalc.Proofs.Decimal.Whole
import LineCalc.Proofs.Decimal.PointZero
import LineCalc.Proofs.Cutting.Scripts
import LineCalc.Proofs.Reading.Lexemes
import LineCalc.Proofs.Line.Scripts
import LineCalc.Proofs.Line.InOrder
import LineCalc.Proofs.Reading.Regrouping
import LineCalc.Proofs.Line.Rendered
import LineCalc.Proofs.Reading.Account
import LineCalc.Proofs.Reading.Operations
import LineCalc.Proofs.Reading.Lookahead
import LineCalc.Proofs.Cutting.Steps
import LineCalc.Proofs.Cutting.Onward
import LineCalc.Proofs.Cutting.Places
import LineCalc.Proofs.Text.LineBreaks
import LineCalc.Proofs.Line.Unbroken
import LineCalc.Proofs.CommandLine.Lines
import LineCalc.Proofs.Results
import LineCalc.Proofs.SelfCheck.Report
import LineCalc.Proofs.CommandLine.Sorting
import LineCalc.Proofs.CommandLine.Usage
import LineCalc.Proofs.Reading.Reports
import LineCalc.Proofs.Session.Log
import LineCalc.Proofs.Cutting.Longest
import LineCalc.Proofs.SelfCheck.Verdict
import LineCalc.Proofs.Json.Finite
import LineCalc.Proofs.SelfCheck.Document
