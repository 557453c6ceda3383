import Treewalk.Span
import Treewalk.Value

/-! Tokens: the lexical units of a source text, each with its place in it. -/

namespace Treewalk

inductive TokenKind where
  | leftParen
  | rightParen
  | leftBrace
  | rightBrace
  | comma
  | dot
  | minus
  | plus
  | semicolon
  | slash
  | star
  | bang
  | bangEqual
  | equal
  | equalEqual
  | greater
  | greaterEqual
  | less
  | lessEqual
  | identifier
  | string
  | number
  | and
  | «class»
  | else
  | false
  | fun
  | for
  | if
  | nil
  | or
  | print
  | return
  | super
  | this
  | true
  | var
  | while
  | eof
deriving DecidableEq, Repr

/-- The name of a kind in token listings. -/
def TokenKind.name : TokenKind → String
  | .leftParen => "LeftParen"
  | .rightParen => "RightParen"
  | .leftBrace => "LeftBrace"
  | .rightBrace => "RightBrace"
  | .comma => "Comma"
  | .dot => "Dot"
  | .minus => "Minus"
  | .plus => "Plus"
  | .semicolon => "Semicolon"
  | .slash => "Slash"
  | .star => "Star"
  | .bang => "Bang"
  | .bangEqual => "BangEqual"
  | .equal => "Equal"
  | .equalEqual => "EqualEqual"
  | .greater => "Greater"
  | .greaterEqual => "GreaterEqual"
  | .less => "Less"
  | .lessEqual => "LessEqual"
  | .identifier => "Identifier"
  | .string => "String"
  | .number => "Number"
  | .and => "And"
  | .class => "Class"
  | .else => "Else"
  | .false => "False"
  | .fun => "Fun"
  | .for => "For"
  | .if => "If"
  | .nil => "Nil"
  | .or => "Or"
  | .print => "Print"
  | .return => "Return"
  | .super => "Super"
  | .this => "This"
  | .true => "True"
  | .var => "Var"
  | .while => "While"
  | .eof => "Eof"

/-- The reserved words with their kinds. -/
def keywords : List (String × TokenKind) :=
  [ ("and", .and), ("class", .class), ("else", .else), ("false", .false), ("for", .for),
    ("fun", .fun), ("if", .if), ("nil", .nil), ("or", .or), ("print", .print),
    ("return", .return), ("super", .super), ("this", .this), ("true", .true), ("var", .var),
    ("while", .while) ]

/-- Kinds that open a declaration or a statement; reading resumes in front of these. -/
def TokenKind.startsStatement : TokenKind → Bool
  | .class | .fun | .var | .for | .if | .while | .print | .return => Bool.true
  | _ => Bool.false

structure Token where
  kind : TokenKind
  lexeme : String
  literal : Option Value
  line : Nat
  span : Span
deriving DecidableEq

/-- The line of a token in token listings. -/
def Token.text (t : Token) : String :=
  t.kind.name ++ " " ++ t.lexeme ++ (t.literal.elim "" fun v => " " ++ v.literalText)

end Treewalk
