import Treewalk.Arguments
import Treewalk.CommandLine
import Treewalk.Decimal
import Treewalk.Decimal.Nearest
import Treewalk.Decimal.Shortest
import Treewalk.Diagnostic
import Treewalk.Environment
import Treewalk.Eval
import Treewalk.Event
import Treewalk.Exec
import Treewalk.Expr
import Treewalk.Grammar.Expression
import Treewalk.Grammar.Fault
import Treewalk.Grammar.Program
import Treewalk.Grammar.Rule
import Treewalk.Main
import Treewalk.Notice
import Treewalk.Number
import Treewalk.Options
import Treewalk.Piece
import Treewalk.Piece.Cut
import Treewalk.Position
import Treewalk.Proofs.Clocked
import Treewalk.Proofs.Execution.Agreement
import Treewalk.Proofs.Execution.Effect
import Treewalk.Proofs.Execution.Faults
import Treewalk.Proofs.Execution.Histories
import Treewalk.Proofs.Execution.Names
import Treewalk.Proofs.Execution.Reach
import Treewalk.Proofs.Execution.Redeclaration
import Treewalk.Proofs.Execution.Relocation
import Treewalk.Proofs.Execution.Renaming
import Treewalk.Proofs.Execution.Resolution
import Treewalk.Proofs.Grammar.Chains
import Treewalk.Proofs.Grammar.Complete
import Treewalk.Proofs.Grammar.Cursor
import Treewalk.Proofs.Grammar.Cursor.Rules
import Treewalk.Proofs.Grammar.Cursor.Safety
import Treewalk.Proofs.Grammar.Cursor.Statements
import Treewalk.Proofs.Grammar.Cursor.Steps
import Treewalk.Proofs.Grammar.Derivation
import Treewalk.Proofs.Grammar.ExpressionReads
import Treewalk.Proofs.Grammar.Follow
import Treewalk.Proofs.Grammar.Height
import Treewalk.Proofs.Grammar.Invariants
import Treewalk.Proofs.Grammar.Isolation
import Treewalk.Proofs.Grammar.Limit
import Treewalk.Proofs.Grammar.Order
import Treewalk.Proofs.Grammar.Parsing
import Treewalk.Proofs.Grammar.Reads
import Treewalk.Proofs.Grammar.Recovery
import Treewalk.Proofs.Grammar.Relocation
import Treewalk.Proofs.Grammar.Scopes
import Treewalk.Proofs.Grammar.Sound
import Treewalk.Proofs.Grammar.StatementReads
import Treewalk.Proofs.Grammar.Unambiguous
import Treewalk.Proofs.Grammar.Vocabulary
import Treewalk.Proofs.Lexing.Classes
import Treewalk.Proofs.Lexing.Cursor
import Treewalk.Proofs.Lexing.Cursor.Pieces
import Treewalk.Proofs.Lexing.Cursor.Steps
import Treewalk.Proofs.Lexing.FirstPiece
import Treewalk.Proofs.Lexing.Layout
import Treewalk.Proofs.Lexing.Lines
import Treewalk.Proofs.Lexing.LongestMatch
import Treewalk.Proofs.Lexing.Numbers
import Treewalk.Proofs.Lexing.Places
import Treewalk.Proofs.Lexing.Scanning
import Treewalk.Proofs.Lexing.Strays
import Treewalk.Proofs.Listing.Forms
import Treewalk.Proofs.Listing.Programs
import Treewalk.Proofs.Run.Joining
import Treewalk.Proofs.Run.Layout
import Treewalk.Proofs.Run.Literals
import Treewalk.Proofs.Run.Outcome
import Treewalk.Proofs.Run.Output
import Treewalk.Proofs.Run.Places
import Treewalk.Proofs.Run.Sessions
import Treewalk.Report
import Treewalk.Run
import Treewalk.RuntimeError
import Treewalk.Scan
import Treewalk.Session
import Treewalk.Sink
import Treewalk.Span
import Treewalk.Stmt
import Treewalk.Text.Alphabetic
import Treewalk.Text.Blank
import Treewalk.Text.Numeric
import Treewalk.Text.Printable
import Treewalk.Text.Utf8
import Treewalk.Token
import Treewalk.Value
