import Treewalk.Text.Numeric
import Treewalk.Token

/-! Source text as a sequence of pieces: blanks, comments, lexemes, characters that begin none of
these, and a string left open at the end. Cutting loses no character, and each piece is as long as
the text allows. -/

namespace Treewalk

inductive Piece where
  | blank (c : Char)
  | comment (text : List Char)
  | lexeme (kind : TokenKind) (text : List Char)
  | stray (c : Char)
  | openString (text : List Char)
deriving DecidableEq

/-- The characters of a piece. -/
def Piece.text : Piece → List Char
  | .blank c => [c]
  | .comment text => text
  | .lexeme _ text => text
  | .stray c => [c]
  | .openString text => text

/-- Spaces, tabs and line ends separate lexemes. -/
def separates (c : Char) : Bool :=
  c == ' ' || c == '\t' || c == '\r' || c == '\n'

/-- The operator written by one character. -/
def operatorKind? : Char → Option TokenKind
  | '(' => some .leftParen
  | ')' => some .rightParen
  | '{' => some .leftBrace
  | '}' => some .rightBrace
  | ',' => some .comma
  | '.' => some .dot
  | '-' => some .minus
  | '+' => some .plus
  | ';' => some .semicolon
  | '/' => some .slash
  | '*' => some .star
  | '!' => some .bang
  | '=' => some .equal
  | '<' => some .less
  | '>' => some .greater
  | _ => none

/-- The operator written by one character and an equals sign. -/
def operatorEqualKind? : Char → Option TokenKind
  | '!' => some .bangEqual
  | '=' => some .equalEqual
  | '<' => some .lessEqual
  | '>' => some .greaterEqual
  | _ => none

/-- A name is a reserved word exactly when its whole text is one. -/
def wordKind (word : List Char) : TokenKind :=
  (keywords.lookup (String.ofList word)).getD .identifier

/-- The point and the digits behind it that continue a number; a point alone does not. -/
def fractionPart : List Char → List Char
  | '.' :: d :: cs => if d.isDigit then '.' :: d :: cs.takeWhile Char.isDigit else []
  | _ => []

/-- The rest of a number after its first digit. -/
def numberTail (cs : List Char) : List Char :=
  cs.takeWhile Char.isDigit ++ fractionPart (cs.dropWhile Char.isDigit)

/-- The piece that begins with a quote. -/
def stringPiece (cs : List Char) : Piece :=
  if cs.contains '"' then .lexeme .string ('"' :: cs.takeWhile (· != '"') ++ ['"'])
  else .openString ('"' :: cs)

/-- The piece that begins with an operator character, a comment being two slashes. -/
def operatorPiece? (c : Char) (cs : List Char) : Option Piece :=
  match operatorEqualKind? c, cs with
  | some kind, '=' :: _ => some (.lexeme kind [c, '='])
  | _, _ =>
    if c = '/' ∧ cs.head? = some '/' then some (.comment (c :: cs.takeWhile (· != '\n')))
    else (operatorKind? c).map fun kind => .lexeme kind [c]

/-- The first piece of the text `c :: cs`. -/
def firstPiece (c : Char) (cs : List Char) : Piece :=
  if separates c then .blank c
  else if c = '"' then stringPiece cs
  else match operatorPiece? c cs with
    | some piece => piece
    | none =>
      if c.isDigit then .lexeme .number (c :: numberTail cs)
      else if startsName c then
        let word := c :: cs.takeWhile continuesName
        .lexeme (wordKind word) word
      else .stray c

/-- The pieces of a text behind its first `skipped` characters. -/
def piecesAfter : Nat → List Char → List Piece
  | _, [] => []
  | 0, c :: cs => firstPiece c cs :: piecesAfter ((firstPiece c cs).text.length - 1) cs
  | skipped + 1, _ :: cs => piecesAfter skipped cs

/-- The pieces of a text, in order. -/
def pieces (source : List Char) : List Piece :=
  piecesAfter 0 source

end Treewalk
