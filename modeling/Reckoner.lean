import Reckoner.Arithmetic.Angle
import Reckoner.Arithmetic.Counting
import Reckoner.Arithmetic.Division
import Reckoner.Arithmetic.DomainError
import Reckoner.Brackets
import Reckoner.Console.Arguments
import Reckoner.Console.Command
import Reckoner.Console.Interactive
import Reckoner.Console.Lines
import Reckoner.Console.Notice
import Reckoner.Console.Report
import Reckoner.Constant
import Reckoner.Line.Atom
import Reckoner.Line.Chunk
import Reckoner.Line.Error
import Reckoner.Line.Tokens
import Reckoner.Main
import Reckoner.Number.Decimal
import Reckoner.Number.Exact
import Reckoner.Number.Shortest
import Reckoner.Number.Text
import Reckoner.Operator
import Reckoner.Operator.Meaning
import Reckoner.Proofs.Blocks
import Reckoner.Proofs.Expressions
import Reckoner.Proofs.Grammar
import Reckoner.Proofs.Grouping
import Reckoner.Proofs.Nesting
import Reckoner.Proofs.Outcome
import Reckoner.Proofs.Parentheses
import Reckoner.Proofs.Spans
import Reckoner.Proofs.Sweep
import Reckoner.Reduction.Error
import Reckoner.Reduction.Factorials
import Reckoner.Reduction.Focus
import Reckoner.Reduction.Tiers
import Reckoner.Session
import Reckoner.Term
import Reckoner.Term.Evaluation
import Reckoner.Text.Blank
import Reckoner.Text.Pieces
import Reckoner.Token
import Reckoner.Token.Grouping
import Reckoner.Proofs.Positions.Access
import Reckoner.Proofs.Positions.Grouping
import Reckoner.Proofs.Positions.Reduction
import Reckoner.Proofs.Positions.Evaluation
import Reckoner.Proofs.Atoms
import Reckoner.Proofs.Balance
import Reckoner.Proofs.Reading
import Reckoner.Proofs.RoundTrip
import Reckoner.Proofs.Flattening
import Reckoner.Proofs.History
import Reckoner.Proofs.Runs
import Reckoner.Proofs.Streams
import Reckoner.Proofs.Number.Rounding
import Reckoner.Proofs.Number.ReadBack
import Reckoner.Proofs.Literals
import Reckoner.Proofs.LastAnswer
import Reckoner.Proofs.Mentions
import Reckoner.Proofs.Chunks
import Reckoner.Proofs.Retyping
import Reckoner.Proofs.Resumption
import Reckoner.Proofs.Agreement
import Reckoner.Proofs.Step
import Reckoner.Proofs.OnePass
import Reckoner.Proofs.FactorialsInStep
import Reckoner.Proofs.Repair
import Reckoner.Proofs.Readable
import Reckoner.Proofs.Shape
import Reckoner.Proofs.Number.Spelling
import Reckoner.Proofs.Refusals
import Reckoner.Proofs.MissingOperands
import Reckoner.Proofs.Juxtaposition
import Reckoner.Proofs.Surroundings
import Reckoner.Proofs.Patterns
import Reckoner.Proofs.Scanning
import Reckoner.Proofs.Spacing
import Reckoner.Proofs.Bytes
import Reckoner.Proofs.Number.Canonical
import Reckoner.Proofs.Number.Rational
import Reckoner.Proofs.Remainder
import Reckoner.Proofs.Factorial
import Reckoner.Proofs.Number.Places
import Reckoner.Proofs.Number.Nearest
import Reckoner.Proofs.Number.Operations
import Reckoner.Proofs.Accuracy
import Reckoner.Proofs.Selections
import Reckoner.Proofs.Coefficients
import Reckoner.Proofs.Roots
import Reckoner.Proofs.Truncation
