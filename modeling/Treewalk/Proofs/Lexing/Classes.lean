import Treewalk.Piece

/-! The classes of texts that a source is made of, each described by the form of its texts alone,
and what it means to split a source into pieces of these classes by longest match. -/

namespace Treewalk

def operators : List (String × TokenKind) :=
  [ ("(", .leftParen), (")", .rightParen), ("\x7b", .leftBrace), ("\x7d", .rightBrace),
    (",", .comma), (".", .dot), ("-", .minus), ("+", .plus), (";", .semicolon), ("/", .slash),
    ("*", .star), ("!", .bang), ("!=", .bangEqual), ("=", .equal), ("==", .equalEqual),
    (">", .greater), (">=", .greaterEqual), ("<", .less), ("<=", .lessEqual) ]

inductive IsLexeme : TokenKind → List Char → Prop where
  | operator {kind : TokenKind} {text : String} (h : (text, kind) ∈ operators) :
      IsLexeme kind text.toList
  | string {body : List Char} (h : '"' ∉ body) : IsLexeme .string ('"' :: (body ++ ['"']))
  | integer {digits : List Char} (hne : digits ≠ []) (h : ∀ d ∈ digits, d.isDigit = true) :
      IsLexeme .number digits
  | fraction {whole fraction : List Char} (hwne : whole ≠ []) (hw : ∀ d ∈ whole, d.isDigit = true)
      (hfne : fraction ≠ []) (hf : ∀ d ∈ fraction, d.isDigit = true) :
      IsLexeme .number (whole ++ '.' :: fraction)
  | keyword {kind : TokenKind} {c : Char} {cs : List Char} (hc : startsName c = true)
      (hcs : ∀ d ∈ cs, continuesName d = true) (h : (String.ofList (c :: cs), kind) ∈ keywords) :
      IsLexeme kind (c :: cs)
  | identifier {c : Char} {cs : List Char} (hc : startsName c = true)
      (hcs : ∀ d ∈ cs, continuesName d = true)
      (h : ∀ kind, (String.ofList (c :: cs), kind) ∉ keywords) :
      IsLexeme .identifier (c :: cs)

def IsSeparator (c : Char) : Prop :=
  c = ' ' ∨ c = '\t' ∨ c = '\r' ∨ c = '\n'

def IsComment (text : List Char) : Prop :=
  ∃ body, text = '/' :: '/' :: body ∧ '\n' ∉ body

def IsOpenString (text : List Char) : Prop :=
  ∃ body, text = '"' :: body ∧ '"' ∉ body

/-- Nothing but the character itself can begin with it. -/
def StartsNothing (c : Char) : Prop :=
  ¬ IsSeparator c ∧ ∀ cs, ¬ IsComment (c :: cs) ∧ ¬ IsOpenString (c :: cs) ∧
    ∀ kind, ¬ IsLexeme kind (c :: cs)

/-- The piece belongs to the class that it names when `rest` is what follows it in the source. -/
def Piece.Belongs (rest : List Char) : Piece → Prop
  | .blank c => IsSeparator c
  | .comment text => IsComment text
  | .lexeme kind text => IsLexeme kind text
  | .stray c => StartsNothing c
  | .openString text => IsOpenString text ∧ rest = []

/-- No piece of any class that could be cut here instead is longer. -/
def Piece.Longest (rest : List Char) (p : Piece) : Prop :=
  ∀ (q : Piece) (rest' : List Char), q.Belongs rest' → q.text ++ rest' = p.text ++ rest →
    q.text.length ≤ p.text.length

/-- The pieces, in order, are the source, and each is the longest that could be cut there. -/
inductive Split : List Char → List Piece → Prop where
  | nil : Split [] []
  | cons {p : Piece} {rest : List Char} {ps : List Piece} (hp : p.Belongs rest)
      (hl : p.Longest rest) (hps : Split rest ps) : Split (p.text ++ rest) (p :: ps)

end Treewalk
