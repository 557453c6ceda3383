import Treewalk.Notice
import Treewalk.Proofs.Clocked
import Treewalk.Proofs.Grammar.Scopes

/-! Reading with a cursor. The procedures share a list of tokens and a state: the place in the list,
the depth of nesting and the names of the open scopes. Nothing in them tells that they come to an
end, that the place stays in the list, or that they leave the depth and the scopes as they found
them. -/

namespace Treewalk

section States

structure Cursor where
  position : Nat
  depth : Nat
  /-- The names declared in each open scope, the innermost one first. -/
  scopes : List (List String)
  diagnostics : List Diagnostic
  events : List Event

def Cursor.start : Cursor := ⟨0, 0, [[]], [], []⟩

def Cursor.complain (s : Cursor) (d : Diagnostic) : Cursor :=
  { s with diagnostics := s.diagnostics ++ [d] }

def Cursor.log (s : Cursor) (e : Event) : Cursor :=
  { s with events := s.events ++ [e] }

def Cursor.declared (s : Cursor) : List String :=
  s.scopes.head?.getD []

/-- Declares a name in the innermost scope. -/
def Cursor.declare (s : Cursor) (name : String) : Cursor :=
  match s.scopes with
  | [] => s
  | names :: outer => { s with scopes := (name :: names) :: outer }

def Cursor.openScope (s : Cursor) : Cursor :=
  { s with scopes := [] :: s.scopes }

def Cursor.closeScope (s : Cursor) : Cursor :=
  { s with scopes := s.scopes.tail }

abbrev Act : Type → Type := Clocked Cursor

/-- A procedure that may fail with an error, which also leaves a new state. -/
abbrev Attempt : Type → Type := ExceptT Diagnostic Act

end States

section Moves

variable (tokens : List Token)

def tokenAt (index : Nat) : Act Token :=
  match tokens[index]? with
  | some t => pure t
  | none => throw (.outOfRange index)

def peek : Act Token := do
  tokenAt tokens (← get).position

def previous : Act Token := do
  -- At the start this is the first token itself.
  tokenAt tokens ((← get).position - 1)

def isAtEnd : Act Bool := do
  return (← peek tokens).kind = .eof

def advance : Act Token := do
  if !(← isAtEnd tokens) then
    modify fun s => { s with position := s.position + 1 }
  previous tokens

def check (kind : TokenKind) : Act Bool := do
  if ← isAtEnd tokens then return false
  return (← peek tokens).kind = kind

def matchKinds : List TokenKind → Act Bool
  | [] => return false
  | kind :: kinds => do
    if ← check tokens kind then
      let _ ← advance tokens
      return true
    matchKinds kinds

def errorAt (token : Token) (fault : SyntaxFault) : Diagnostic where
  phase := .syntactic
  span := token.span
  line := token.line
  location := if token.kind = .eof then .atEnd else .at token.lexeme
  message := fault.message
  help := fault.help token.lexeme

def consume (kind : TokenKind) (fault : SyntaxFault) : Attempt Token := do
  if ← check tokens kind then advance tokens
  else throw (errorAt (← peek tokens) fault)

/-- Passes tokens up to a semicolon or to a token that starts a statement. -/
def skip : Nat → Act Unit
  | 0 => unfinished
  | clock + 1 => do
    if ← isAtEnd tokens then return
    if (← previous tokens).kind = .semicolon then return
    if (← peek tokens).kind.startsStatement then return
    let _ ← advance tokens
    skip clock

def synchronize (clock : Nat) : Act Unit := do
  let start := (← get).position
  let _ ← advance tokens
  skip tokens clock
  let skipped ← difference (← get).position start
  let next ← peek tokens
  modify fun s => s.log (.resumed skipped next.line)

end Moves

section Rules

variable {α : Type} (tokens : List Token)

/-- The kinds of the operators of a tier. -/
def Tier.kinds : Tier → List TokenKind
  | .equality => [.bangEqual, .equalEqual]
  | .comparison => [.greater, .greaterEqual, .less, .lessEqual]
  | .term => [.minus, .plus]
  | .factor => [.slash, .star]

/-- The operator of a token, by a table that has no entry for other kinds. -/
def operatorOf (op? : TokenKind → Option α) (token : Token) : Attempt α :=
  match op? token.kind with
  | some op => pure op
  | none => throwThe Breach (.unknownOperator token.kind)

/-- Calls a rule one level deeper. The depth is set back also when the rule fails. -/
def nested (opener : Token) (rule : Attempt α) : Attempt α := ExceptT.mk do
  if (← get).depth ≥ maxNesting then return .error (errorAt opener .tooMuchNesting)
  modify fun s => { s with depth := s.depth + 1 }
  let result ← rule.run
  let depth ← difference (← get).depth 1
  modify fun s => { s with depth }
  return result

mutual

/-- The rules for expressions, each of which calls the one that binds tighter. -/
def readExpression : Nat → Nonterminal → Attempt Expr
  | 0, _ => unfinished
  | clock + 1, .primary => do
    if ← matchKinds tokens [.false] then return .literal (.bool false)
    if ← matchKinds tokens [.true] then return .literal (.bool true)
    if ← matchKinds tokens [.nil] then return .literal .nil
    if ← matchKinds tokens [.number, .string] then
      return .literal ((← previous tokens).literal.getD .nil)
    if ← matchKinds tokens [.identifier] then return .variable (← previous tokens)
    if ← matchKinds tokens [.leftParen] then
      let paren ← previous tokens
      let expr ← nested paren (readExpression clock .assignment)
      let _ ← consume tokens .rightParen .expectParenAfterExpression
      return .grouping expr
    throw (errorAt (← peek tokens) .expectExpression)
  | clock + 1, .unary => do
    if ← matchKinds tokens [.bang, .minus] then
      let token ← previous tokens
      let op ← operatorOf unaryOp? token
      let operand ← nested token (readExpression clock .unary)
      return .unary op token operand
    else readExpression clock .primary
  | clock + 1, .operation tier => do
    let first ← readExpression clock tier.operand
    readOperators clock tier first
  | clock + 1, .assignment => do
    let left ← readExpression clock (.operation .equality)
    if ← matchKinds tokens [.equal] then
      let equals ← previous tokens
      let value ← nested equals (readExpression clock .assignment)
      match left with
      | .variable name => return .assign name value
      | _ =>
        modify fun s => s.complain (errorAt equals .invalidTarget)
        return left
    else return left

/-- The operators of a tier and their right operands, behind `left`. -/
def readOperators : Nat → Tier → Expr → Attempt Expr
  | 0, _, _ => unfinished
  | clock + 1, tier, left => do
    if ← matchKinds tokens tier.kinds then
      let token ← previous tokens
      let op ← operatorOf tier.op? token
      let right ← readExpression clock tier.operand
      readOperators clock tier (.binary op token left right)
    else return left

end

variable (clock : Nat)

def readExpressionStatement : Attempt Stmt := do
  let expr ← readExpression tokens clock .assignment
  let _ ← consume tokens .semicolon .expectSemicolonAfterExpression
  return .expression expr

def readPrint : Attempt Stmt := do
  let keyword ← previous tokens
  let expr ← readExpression tokens clock .assignment
  let _ ← consume tokens .semicolon .expectSemicolonAfterValue
  return .print keyword expr

def tellRedeclared (name : Token) : Act Unit := do
  if name.lexeme ∈ (← get).declared then
    modify fun s => s.complain (errorAt name (.redeclared name.lexeme))

def readInitializer : Attempt (Option Expr) := do
  if ← matchKinds tokens [.equal] then
    let expr ← readExpression tokens clock .assignment
    return some expr
  else return none

def readVar : Attempt Stmt := do
  let name ← consume tokens .identifier .expectName
  let _ ← tellRedeclared name
  let initializer ← readInitializer tokens clock
  let _ ← consume tokens .semicolon .expectSemicolonAfterDeclaration
  -- Only here does the name count as declared: a declaration that fails leaves it free.
  modify fun s => s.declare name.lexeme
  return .var name initializer

mutual

def readStatement : Nat → Attempt Stmt
  | 0 => unfinished
  | clock + 1 => do
    if ← matchKinds tokens [.print] then readPrint tokens clock
    else if ← matchKinds tokens [.leftBrace] then
      let brace ← previous tokens
      let body ← nested brace (readBlock clock)
      return .block body
    else readExpressionStatement tokens clock

def readBlock : Nat → Attempt (List Stmt)
  | 0 => unfinished
  | clock + 1 => do
    let body ← readBody clock
    let _ ← consume tokens .rightBrace .expectBraceAfterBlock
    return body

/-- The statements of a block, in a scope of their own. -/
def readBody : Nat → Act (List Stmt)
  | 0 => unfinished
  | clock + 1 => do
    modify Cursor.openScope
    let body ← readScope clock (some .rightBrace) []
    modify Cursor.closeScope
    return body

/-- The statements up to the end or a closing token, behind those that have been read. -/
def readScope : Nat → Option TokenKind → List Stmt → Act (List Stmt)
  | 0, _, _ => unfinished
  | clock + 1, closer, body => do
    let closed ← closer.elim (pure false) (check tokens)
    if closed || (← isAtEnd tokens) then return body
    let stmt ← readDeclaration clock
    readScope clock closer (body ++ stmt.toList)

/-- A declaration. An error in it is told, and reading resumes behind it. -/
def readDeclaration : Nat → Act (Option Stmt)
  | 0 => unfinished
  | clock + 1 => do
    let result ← ExceptT.run do
      if ← matchKinds tokens [.var] then readVar tokens clock else readStatement clock
    match result with
    | .ok stmt => return some stmt
    | .error d =>
      modify fun s => s.complain d
      synchronize tokens clock
      return none

end

/-- The tokens with one for the end behind them, unless the last one stands for the end. -/
def closeTokens : List Token :=
  if tokens.getLast?.map (·.kind) = some .eof then tokens
  else tokens ++ [eofToken (endPosition tokens)]

/-- Reads a whole program. -/
def readProgram : Act (List Stmt) := do
  let statements ← readScope (closeTokens tokens) clock none []
  modify fun s => s.log (.parseFinished statements.length s.diagnostics.length)
  return statements

end Rules

end Treewalk
