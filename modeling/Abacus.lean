import Abacus.Main
import Abacus.CommandLine
import Abacus.Json.Encode
import Abacus.Session
import Abacus.Proofs.Span
import Abacus.Proofs.Number.Decimal
import Abacus.Proofs.Token.Lexing
import Abacus.Proofs.Token.Segments
import Abacus.Proofs.Token.Concatenation
import Abacus.Proofs.Token.Strays
import Abacus.Proofs.Token.Tiling
import Abacus.Proofs.Tree.Derivation
import Abacus.Proofs.Tree.Descent
import Abacus.Proofs.Tree.Brackets
import Abacus.Proofs.Tree.Nodes
import Abacus.Proofs.Tree.Denotation
import Abacus.Proofs.Tree.Viability
import Abacus.Proofs.Tree.Shape
import Abacus.Proofs.Tree.Slices
import Abacus.Proofs.Tree.Dump
import Abacus.Proofs.Tree.Pruning
import Abacus.Proofs.Tree.Faults
import Abacus.Proofs.Value.RoundTrip
import Abacus.Proofs.Value.Cells
import Abacus.Proofs.Tree.Numerals
import Abacus.Proofs.Exact
import Abacus.Proofs.Exact.Refinement
import Abacus.Proofs.Exact.ClosedForm
import Abacus.Proofs.Evaluation.Reduction
import Abacus.Proofs.Evaluation.ShortCircuit
import Abacus.Proofs.Evaluation.Failure
import Abacus.Proofs.Evaluation.NormalForm
import Abacus.Proofs.Evaluation.Nesting
import Abacus.Proofs.Evaluation.Replacement
import Abacus.Proofs.Evaluation.Causes
import Abacus.Proofs.Source.Concatenation
import Abacus.Proofs.Text.Pieces
import Abacus.Proofs.Text.ShownLines
import Abacus.Proofs.Report.Rows
import Abacus.Proofs.Report.Location
import Abacus.Proofs.Report.Room
import Abacus.Proofs.Session.Interactive
import Abacus.Proofs.Session.Batch
import Abacus.Proofs.Session.Delivery
import Abacus.Proofs.Session.Streaming
import Abacus.Proofs.Json.Text
import Abacus.Proofs.Json.RoundTrip
