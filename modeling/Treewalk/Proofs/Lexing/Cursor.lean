import Treewalk.Notice
import Treewalk.Proofs.Clocked

/-! Scanning with a cursor. The procedures share a source and a state: where the lexeme begins that
is being read, how far reading has come, and on which line. A procedure that looks past the end sees
the character NUL, which may also stand in the source. Lines are counted in two places, between
lexemes and inside strings. Nothing in the procedures tells that they come to an end, that what they
cut out lies in the source, or that the line is right. -/

namespace Treewalk

structure Scanner where
  start : Nat
  current : Nat
  line : Nat
  tokens : List Token
  diagnostics : List Diagnostic
  events : List Event

def Scanner.initial : Scanner := ⟨0, 0, 1, [], [], []⟩

def Scanner.complain (s : Scanner) (d : Diagnostic) : Scanner :=
  { s with diagnostics := s.diagnostics ++ [d] }

def Scanner.log (s : Scanner) (e : Event) : Scanner :=
  { s with events := s.events ++ [e] }

def Scanner.emit (s : Scanner) (t : Token) : Scanner :=
  { s with tokens := s.tokens ++ [t] }

/-- What a lexical error leads to. -/
def Scanner.fail (s : Scanner) (fault : LexicalFault) (span : Span) : Scanner :=
  s.complain (LexicalError.diagnostic ⟨fault, span, s.line⟩)

section Moves

variable (source : List Char)

def Scanner.atEnd (s : Scanner) : Bool :=
  source.length ≤ s.current

def Scanner.peek (s : Scanner) : Char :=
  source[s.current]?.getD '\x00'

def Scanner.peekNext (s : Scanner) : Char :=
  source[s.current + 1]?.getD '\x00'

/-- Passes a character, unless none remains. -/
def nextChar : Clocked Scanner Char := do
  match source[(← get).current]? with
  | some c =>
    modify fun s => { s with current := s.current + 1 }
    return c
  | none => return '\x00'

/-- Passes the next character if it is the expected one. -/
def matchChar (expected : Char) : Clocked Scanner Bool := do
  let s ← get
  if s.atEnd source || s.peek source != expected then return false
  modify fun s => { s with current := s.current + 1 }
  return true

/-- The text between two places in the source. -/
def sliceText (start stop : Nat) : Clocked Scanner String :=
  if start ≤ stop ∧ stop ≤ source.length then return String.ofList (source.extract start stop)
  else throw (.noSlice start stop)

def addToken (kind : TokenKind) (literal : Option Value) : Clocked Scanner Unit := do
  let s ← get
  let lexeme ← sliceText source s.start s.current
  modify fun s => s.emit ⟨kind, lexeme, literal, s.line, ⟨s.start, s.current⟩⟩

/-- Passes characters of a class, to which NUL must not belong. -/
def passWhile (p : Char → Bool) : Nat → Clocked Scanner Unit :=
  repeatWhile (fun s => p (s.peek source)) fun _ => do
    let _ ← nextChar source

end Moves

section Lexemes

variable (source : List Char) (clock : Nat)

def passComment : Clocked Scanner Unit :=
  repeatWhile (fun s => s.peek source != '\n' && !s.atEnd source) (fun _ => do
    let _ ← nextChar source) clock

/-- Passes what stands between the quotes, line by line. -/
def passStringBody : Clocked Scanner Unit :=
  repeatWhile (fun s => s.peek source != '"' && !s.atEnd source) (fun _ => do
    if (← get).peek source = '\n' then
      modify fun s => { s with line := s.line + 1 }
    let _ ← nextChar source) clock

def scanString : Clocked Scanner Unit := do
  let openedOn := (← get).line
  passStringBody source clock
  if (← get).atEnd source then
    modify fun s => s.fail (.openString openedOn) ⟨s.start, s.current⟩
    return
  let _ ← nextChar source
  let s ← get
  let stop ← difference s.current 1
  let value ← sliceText source (s.start + 1) stop
  addToken source .string (some (.string value))

/-- The number that digits write, with or without a point in front of, among or behind them. Texts
with a sign or an exponent, and names of numbers, are left out: no lexeme is one. -/
def readNumber? (text : String) : Option Float :=
  let digits := text.toList.takeWhile Char.isDigit
  match text.toList.dropWhile Char.isDigit with
  | [] => if digits.isEmpty then none else some (numberOfDecimal (.ofDigits digits []))
  | '.' :: fraction =>
    if fraction.all Char.isDigit && !(digits ++ fraction).isEmpty then
      some (numberOfDecimal (.ofDigits digits fraction))
    else none
  | _ => none

/-- What is said of a number that cannot be read. -/
def numberDiagnostic (text : String) (span : Span) (line : Nat) : Diagnostic where
  phase := .lexical
  span := span
  line := line
  location := .nowhere
  message := "Invalid number '" ++ text ++ "'."
  help := none

/-- Passes the digits of a number. A point counts only in front of another digit. -/
def passNumber : Clocked Scanner Unit := do
  passWhile source Char.isDigit clock
  let s ← get
  if s.peek source == '.' && (s.peekNext source).isDigit then
    let _ ← nextChar source
    passWhile source Char.isDigit clock

def scanNumber : Clocked Scanner Unit := do
  passNumber source clock
  let s ← get
  let text ← sliceText source s.start s.current
  match readNumber? text with
  | some x => addToken source .number (some (.number x))
  | none => modify fun s => s.complain (numberDiagnostic text ⟨s.start, s.current⟩ s.line)

def scanWord : Clocked Scanner Unit := do
  passWhile source continuesName clock
  let s ← get
  let text ← sliceText source s.start s.current
  addToken source ((keywords.lookup text).getD .identifier) none

/-- The operators that a character writes whatever follows it. -/
def plainOperator? : Char → Option TokenKind
  | '(' => some .leftParen
  | ')' => some .rightParen
  | '{' => some .leftBrace
  | '}' => some .rightBrace
  | ',' => some .comma
  | '.' => some .dot
  | '-' => some .minus
  | '+' => some .plus
  | ';' => some .semicolon
  | '*' => some .star
  | _ => none

/-- The operators that a character writes by itself and with an equals sign behind it. -/
def pairedOperator? : Char → Option (TokenKind × TokenKind)
  | '!' => some (.bang, .bangEqual)
  | '=' => some (.equal, .equalEqual)
  | '<' => some (.less, .lessEqual)
  | '>' => some (.greater, .greaterEqual)
  | _ => none

def tellStray (c : Char) : Clocked Scanner Unit := do
  modify fun s => s.log (.strayCharacter s.line c)
  modify fun s => s.fail (.strayCharacter c) (.single s.start)

/-- Goes on behind a character that is no operator but a slash. -/
def scanOther (c : Char) : Clocked Scanner Unit := do
  if c = '/' then
    if ← matchChar source '/' then passComment source clock
    else addToken source .slash none
  else if c = ' ' ∨ c = '\r' ∨ c = '\t' then return
  else if c = '\n' then modify fun s => { s with line := s.line + 1 }
  else if c = '"' then scanString source clock
  else if c.isDigit then scanNumber source clock
  else if startsName c then scanWord source clock
  else tellStray c

/-- Goes on behind the first character of a piece. -/
def scanBehind (c : Char) : Clocked Scanner Unit :=
  match plainOperator? c with
  | some kind => addToken source kind none
  | none =>
    match pairedOperator? c with
    | some (alone, paired) => do
      let isPaired ← matchChar source '='
      addToken source (if isPaired then paired else alone) none
    | none => scanOther source clock c

def scanPiece : Clocked Scanner Unit := do
  modify fun s => { s with start := s.current }
  let c ← nextChar source
  scanBehind source clock c

/-- Scans the whole source. -/
def scanSource : Clocked Scanner (List Token × List Diagnostic) := do
  repeatWhile (fun s => !s.atEnd source) (scanPiece source) clock
  modify fun s => s.emit ⟨.eof, "", none, s.line, ⟨s.current, s.current⟩⟩
  modify fun s => s.log (.scanFinished s.tokens.length s.diagnostics.length)
  let s ← get
  return (s.tokens, s.diagnostics)

end Lexemes

end Treewalk
