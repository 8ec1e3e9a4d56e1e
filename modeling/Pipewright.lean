import Pipewright.Span
import Pipewright.Text.Bytes
import Pipewright.Text.CharClass
import Pipewright.Text.Lines
import Pipewright.Diagnostic
import Pipewright.Token
import Pipewright.Token.Piece
import Pipewright.Token.Lexer
import Pipewright.ParseTree
import Pipewright.ParseTree.Reader
import Pipewright.Program
import Pipewright.Program.Printer
import Pipewright.Program.OperatorTree
import Pipewright.Program.Nesting
import Pipewright.Text.Decimal
import Pipewright.Program.Lowering
import Pipewright.Json
import Pipewright.JavaScript
import Pipewright.JavaScript.Target
import Pipewright.ParseTree.Outline
import Pipewright.Compilation
import Pipewright.CommandLine
import Pipewright.CommandLine.Run
import Pipewright.Main
import Pipewright.Proofs.Grammar
import Pipewright.Proofs.WrittenTrees
import Pipewright.Proofs.GrammaticalTrees
import Pipewright.Proofs.ReaderSteps
import Pipewright.Proofs.ReaderRuns
import Pipewright.Proofs.Recovery
import Pipewright.Proofs.Parsing
import Pipewright.Proofs.Precedence
import Pipewright.Proofs.Comments
import Pipewright.Proofs.Layout
import Pipewright.Proofs.Faults
import Pipewright.Proofs.Compiling
import Pipewright.Proofs.BarePrograms
import Pipewright.Proofs.Containment
import Pipewright.Proofs.LayoutIndependence
import Pipewright.Proofs.NormalForm
import Pipewright.Proofs.Writing
import Pipewright.Proofs.Outcome
import Pipewright.Proofs.MaximalMunch
import Pipewright.Proofs.ViablePrefixes
import Pipewright.Proofs.EditedCompilations
import Pipewright.Proofs.ExitCodes
import Pipewright.Proofs.CommentDepth
import Pipewright.Proofs.LexicalErrors
import Pipewright.Proofs.SeparatedLexemes
import Pipewright.Proofs.LineBreaks
import Pipewright.Proofs.Atoms
import Pipewright.Proofs.CorePrograms
import Pipewright.Proofs.PrintedPieces
import Pipewright.Proofs.PrintedPrograms
import Pipewright.Proofs.PlainPrograms
import Pipewright.Proofs.JsonTexts
import Pipewright.Proofs.TreeNodes
import Pipewright.Proofs.ExactSpans
import Pipewright.Proofs.TracedTokens
import Pipewright.Proofs.Provenance
import Pipewright.Proofs.DiagnosticOrder
import Pipewright.Proofs.JoinedSpans
import Pipewright.Proofs.LineTables
import Pipewright.Proofs.Pointers
import Pipewright.Proofs.LexerRuns
import Pipewright.Proofs.RightEdges
