import Treewalk.Piece
import Treewalk.Position

/-! Tokens and lexical errors of a source text, read off its pieces.
Every lexeme gives a token, every stray character and open string an error; the list of tokens is
closed by a token for the end of the text. -/

namespace Treewalk

inductive LexicalFault where
  | strayCharacter (c : Char)
  | openString (openedOn : Nat)
deriving DecidableEq, Repr

structure LexicalError where
  fault : LexicalFault
  span : Span
  line : Nat
deriving DecidableEq, Repr

structure Scan where
  tokens : List Token
  errors : List LexicalError
deriving DecidableEq

/-- Each piece with the position at which it starts. -/
def placedPieces (p : Position) : List Piece → List (Position × Piece)
  | [] => []
  | piece :: rest => (p, piece) :: placedPieces (p.after piece.text) rest

/-- The value of a number lexeme. -/
def numberLiteral (text : List Char) : Value :=
  .number (numberOfDecimal
    (.ofDigits (text.takeWhile Char.isDigit) ((text.dropWhile Char.isDigit).drop 1)))

/-- The value of a string lexeme: what stands between the quotes. -/
def stringLiteral (text : List Char) : Value :=
  .string (String.ofList (text.drop 1).dropLast)

def lexemeLiteral (kind : TokenKind) (text : List Char) : Option Value :=
  match kind with
  | .number => some (numberLiteral text)
  | .string => some (stringLiteral text)
  | _ => none

/-- The token of a lexeme that starts at `p`. Its line is the one on which it ends. -/
def lexemeToken (p : Position) (kind : TokenKind) (text : List Char) : Token where
  kind := kind
  lexeme := String.ofList text
  literal := lexemeLiteral kind text
  line := (p.after text).line
  span := ⟨p.offset, (p.after text).offset⟩

def pieceToken? : Position × Piece → Option Token
  | (p, .lexeme kind text) => some (lexemeToken p kind text)
  | _ => none

def pieceError? : Position × Piece → Option LexicalError
  | (p, .stray c) => some ⟨.strayCharacter c, .single p.offset, p.line⟩
  | (p, .openString text) =>
    some ⟨.openString p.line, ⟨p.offset, (p.after text).offset⟩, (p.after text).line⟩
  | _ => none

/-- The token for the end of a text. -/
def eofToken (p : Position) : Token where
  kind := .eof
  lexeme := ""
  literal := none
  line := p.line
  span := .empty p.offset

def scan (source : String) : Scan :=
  let placed := placedPieces .start (pieces source.toList)
  { tokens := placed.filterMap pieceToken? ++ [eofToken (Position.start.after source.toList)]
    errors := placed.filterMap pieceError? }

end Treewalk
