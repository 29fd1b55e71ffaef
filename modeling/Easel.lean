import Easel.Number
import Easel.Number.Numeral
import Easel.Value
import Easel.Color
import Easel.Operator
import Easel.Keyword
import Easel.Fault
import Easel.Source
import Easel.Token
import Easel.Token.Scan
import Easel.Token.Stream
import Easel.Expr
import Easel.Expr.Shape
import Easel.Expr.Parse
import Easel.Expr.Eval
import Easel.Program
import Easel.Program.Outline
import Easel.Program.Labels
import Easel.Program.Parse
import Easel.Program.Perform
import Easel.Program.Run
import Easel.Program.Compile
import Easel.Canvas
import Easel.Studio
import Easel.Text.Printable
import Easel.Text.Quoted
import Easel.Listing
import Easel.CommandLine
import Easel.Main
import Easel.Proofs.Evaluation
import Easel.Proofs.Spelling
import Easel.Proofs.Stream
import Easel.Proofs.Reading
import Easel.Proofs.Fuel
import Easel.Proofs.Precedence
import Easel.Proofs.Parsing
import Easel.Proofs.Arguments
import Easel.Proofs.Chains
import Easel.Proofs.Typing
import Easel.Proofs.Statements
import Easel.Proofs.Faults
import Easel.Proofs.Labels
import Easel.Proofs.Sequence
import Easel.Proofs.Grammar
import Easel.Proofs.Renumber
import Easel.Proofs.LineLocal
import Easel.Proofs.Effects
import Easel.Proofs.History
import Easel.Proofs.Sessions
import Easel.Proofs.Strokes
import Easel.Proofs.Lines
import Easel.Proofs.Messages
import Easel.Proofs.Blame
import Easel.Proofs.Diagnostics
import Easel.Proofs.Shapes
import Easel.Proofs.DeclaredTypes
import Easel.Proofs.Jumps
import Easel.Proofs.Forward
import Easel.Proofs.Responses
import Easel.Proofs.LineNumbers
import Easel.Proofs.Arithmetic
import Easel.Proofs.Resolution
import Easel.Proofs.Halting
import Easel.Proofs.Progress
import Easel.Proofs.ScanFaults
import Easel.Proofs.Grouping
import Easel.Proofs.Queries
import Easel.Proofs.Rendering
import Easel.Proofs.Outlines
import Easel.Proofs.Dependence
import Easel.Proofs.Room
import Easel.Proofs.Counting
