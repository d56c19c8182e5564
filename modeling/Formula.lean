import Formula.Text.Blank
import Formula.Name
import Formula.Binary64
import Formula.Decimal
import Formula.Decimal.Shortest
import Formula.Numeral
import Formula.Double
import Formula.Token
import Formula.Item
import Formula.Error
import Formula.Cursor
import Formula.Expr
import Formula.Expr.Text
import Formula.Parse
import Formula.Reader
import Formula.Machine
import Formula.Text.Invisible
import Formula.Text.Quoted
import Formula.Evaluate
import Formula.Builtin
import Formula.Handler
import Formula.Bindings
import Formula.Definition
import Formula.Options
import Formula.Report
import Formula.Main.Arguments
import Formula.Main
import Formula.Proofs.Spelling
import Formula.Proofs.Positions
import Formula.Proofs.Pieces
import Formula.Proofs.Passage
import Formula.Proofs.Cutting
import Formula.Proofs.Attempts
import Formula.Proofs.Grammar
import Formula.Proofs.Equations
import Formula.Proofs.Place
import Formula.Proofs.Reading
import Formula.Proofs.Failure
import Formula.Proofs.Halts
import Formula.Proofs.Productions
import Formula.Proofs.Completeness
import Formula.Proofs.Acceptance
import Formula.Proofs.FirstViolation
import Formula.Proofs.Simulation
import Formula.Proofs.WiderLimits
import Formula.Proofs.PostOrder
import Formula.Proofs.Bits
import Formula.Proofs.Digits
import Formula.Proofs.RoundTrip
import Formula.Proofs.Leaves
import Formula.Proofs.PrintsBack
import Formula.Proofs.Activations
import Formula.Proofs.Embedding
import Formula.Proofs.Meaning
import Formula.Proofs.Lines
import Formula.Proofs.Lookup
import Formula.Proofs.Files
import Formula.Proofs.Counting
import Formula.Proofs.Reuse
import Formula.Proofs.Relocation
import Formula.Proofs.Boundary
import Formula.Proofs.Layout
import Formula.Proofs.Locality
import Formula.Proofs.Heights
import Formula.Proofs.Stack
import Formula.Proofs.Overflow
import Formula.Proofs.Resumption
import Formula.Proofs.Iteration
import Formula.Proofs.Ending
import Formula.Proofs.Image
import Formula.Proofs.Mentions
import Formula.Proofs.Agreement
import Formula.Proofs.Substitution
import Formula.Proofs.Unknown
import Formula.Proofs.Builtins
import Formula.Proofs.Definitions
import Formula.Proofs.Writings
import Formula.Proofs.Spacing
import Formula.Proofs.Pointing
import Formula.Proofs.Progress
import Formula.Proofs.MachineSteps
import Formula.Proofs.MachineRuns
import Formula.Proofs.Capacity
import Formula.Proofs.Termination
