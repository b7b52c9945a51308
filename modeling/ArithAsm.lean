import ArithAsm.Text.Printable
import ArithAsm.Text.Quoted
import ArithAsm.Text.Blank
import ArithAsm.Text.Line
import ArithAsm.Location
import ArithAsm.Token
import ArithAsm.Diagnostic
import ArithAsm.Expr.Basic
import ArithAsm.Expr.Display
import ArithAsm.Expr.Value
import ArithAsm.Expr.Outline
import ArithAsm.Expr.Diagram
import ArithAsm.Shell.Word
import ArithAsm.Log
import ArithAsm.Source.Segment
import ArithAsm.Source.Stream
import ArithAsm.Source.Readers
import ArithAsm.Sentence.Pending
import ArithAsm.Sentence.Reading
import ArithAsm.Assembly.Instruction
import ArithAsm.Assembly.Draft
import ArithAsm.Assembly.OfExpr
import ArithAsm.Decimal.Binary64
import ArithAsm.Decimal.Shortest
import ArithAsm.Decimal.Integer
import ArithAsm.Text.Digit
import ArithAsm.Decimal.Numeral
import ArithAsm.Path
import ArithAsm.Workspace
import ArithAsm.Failure
import ArithAsm.Compilation
import ArithAsm.Toolchain.Settings
import ArithAsm.Toolchain.Command
import ArithAsm.Toolchain.World
import ArithAsm.Toolchain.Build
import ArithAsm.Text.Terminal
import ArithAsm.CommandLine.Switch
import ArithAsm.CommandLine.Request
import ArithAsm.CommandLine.Response
import ArithAsm.Main
import ArithAsm.Sentence.Grammar
import ArithAsm.Assembly.Machine
import ArithAsm.Assembly.Code
import ArithAsm.Expr.Exact
import ArithAsm.Expr.Source
import ArithAsm.Expr.Places
import ArithAsm.Expr.Address
import ArithAsm.Proofs.Sentence.Unfinished
import ArithAsm.Proofs.Sentence.Acceptance
import ArithAsm.Proofs.Sentence.Viability
import ArithAsm.Proofs.Attempts
import ArithAsm.Proofs.Assembly.Drafting
import ArithAsm.Proofs.Sentence.Refusal
import ArithAsm.Proofs.Assembly.Frame
import ArithAsm.Proofs.Assembly.WordValue
import ArithAsm.Proofs.Assembly.Simulation
import ArithAsm.Proofs.Assembly.StackProgram
import ArithAsm.Proofs.Text.Lines
import ArithAsm.Proofs.Text.Plain
import ArithAsm.Proofs.Text.Numeral
import ArithAsm.Proofs.Assembly.Listing
import ArithAsm.Proofs.Assembly.Prediction
import ArithAsm.Proofs.Source.Segmentation
import ArithAsm.Proofs.Source.Tokenization
import ArithAsm.Proofs.Sentence.Demand
import ArithAsm.Proofs.Sentence.Inorder
import ArithAsm.Proofs.Compilation.Readings
import ArithAsm.Proofs.Compilation.Failing
import ArithAsm.Proofs.Compilation.RoundTrip
import ArithAsm.Proofs.Assembly.Recorded
import ArithAsm.Proofs.Assembly.Interrupted
import ArithAsm.Proofs.Text.Unescaped
import ArithAsm.Proofs.Expr.Drawing
import ArithAsm.Proofs.Expr.Labels
import ArithAsm.Proofs.Expr.Indentation
import ArithAsm.Proofs.Expr.Numbering
import ArithAsm.Proofs.CommandLine.Arguments
import ArithAsm.Proofs.Toolchain.Files
import ArithAsm.Proofs.Toolchain.Outcomes
import ArithAsm.Proofs.Toolchain.Deeds
import ArithAsm.Proofs.CommandLine.Delivery
import ArithAsm.Proofs.CommandLine.Expressions
import ArithAsm.Proofs.Assembly.StackDepth
import ArithAsm.Proofs.Expr.Exactness
import ArithAsm.Proofs.Source.Nesting
import ArithAsm.Proofs.CommandLine.Run
import ArithAsm.Proofs.Assembly.Remarks
import ArithAsm.Proofs.Assembly.Recovery
import ArithAsm.Proofs.Sentence.Extent
import ArithAsm.Proofs.Sentence.Placement
import ArithAsm.Proofs.Source.Spacing
import ArithAsm.Proofs.Compilation.Layout
import ArithAsm.Proofs.Compilation.Reuse
import ArithAsm.Proofs.Source.Reached
import ArithAsm.Proofs.Compilation.Pointing
import ArithAsm.Proofs.Source.Concatenation
import ArithAsm.Proofs.Compilation.Composition
import ArithAsm.Proofs.Source.Interleaving
import ArithAsm.Proofs.Source.Canonical
import ArithAsm.Proofs.Assembly.Malformed
import ArithAsm.Expr.Visitor
import ArithAsm.Proofs.Expr.Visiting
import ArithAsm.Proofs.Toolchain.Refusals
import ArithAsm.Proofs.CommandLine.Unwritable
import ArithAsm.Proofs.Shell.Splitting
import ArithAsm.Proofs.CommandLine.Environment
import ArithAsm.Proofs.Toolchain.Products
import ArithAsm.Proofs.Toolchain.Naming
