import Treewalk.Grammar.Expression

/-! The rules for statements, and reading a whole program.
A declaration with an error in it is dropped, and reading resumes behind the next semicolon or in
front of the next token that starts a statement, so that one reading finds every error. -/

namespace Treewalk

/-- `print` has been read. -/
def printRule (room : Nat) (keyword : Token) : Rule Stmt := do
  let expr ← expressionRule room
  let _ ← Rule.expect .semicolon .expectSemicolonAfterValue
  return .print keyword expr

def expressionStatementRule (room : Nat) : Rule Stmt := do
  let expr ← expressionRule room
  let _ ← Rule.expect .semicolon .expectSemicolonAfterExpression
  return .expression expr

/-- The initializer of a variable, if there is one. -/
def initializerRule (room : Nat) : Rule (Option Expr) := do
  match ← Rule.accept? (only .equal) with
  | some _ =>
    let expr ← expressionRule room
    return some expr
  | none => return none

/-- Reports a name that the scope has already declared. -/
def freshNameRule (declared : List String) (name : Token) : Rule Unit :=
  if name.lexeme ∈ declared then Rule.report (.redeclared name.lexeme) name else Rule.pure ()

/-- `var` has been read. -/
def varRule (room : Nat) (declared : List String) : Rule Stmt := do
  let name ← Rule.expect .identifier .expectName
  let _ ← freshNameRule declared name
  let initializer ← initializerRule room
  let _ ← Rule.expect .semicolon .expectSemicolonAfterDeclaration
  return .var name initializer

/-- The opening brace has been read; the rest of the block is read by `inner`. -/
def blockStatementRule (inner : Option (Rule (List Stmt))) (brace : Token) : Rule Stmt := do
  let body ← Rule.nested brace inner
  return .block body

/-- A declaration or statement in a scope with the given names; blocks are read by `inner`. -/
def declarationRule (room : Nat) (inner : Option (Rule (List Stmt))) (declared : List String) :
    Rule Stmt
  | [] => expressionStatementRule room []
  | t :: ts =>
    match t.kind with
    | .var => varRule room declared ts
    | .print => printRule room t ts
    | .leftBrace => blockStatementRule inner t ts
    | _ => expressionStatementRule room (t :: ts)

/-- Where reading resumes: at least one token is passed, then all up to a semicolon or to a token
that starts a statement. -/
def resume : List Token → List Token
  | [] => []
  | t :: ts =>
    if t.kind = .semicolon ∨ ts.head?.any (·.kind.startsStatement) then ts else resume ts

/-- Drops what a failed rule has read, and resumes. -/
def recovering (rule : Rule Stmt) (ts : List Token) : Reading (Option Stmt) :=
  match rule ts with
  | ⟨.ok stmt, reports, rest⟩ => ⟨some stmt, reports, rest⟩
  | ⟨.error e, reports, rest⟩ =>
    let after := resume rest
    ⟨none, reports ++ [⟨e, some ⟨rest.length - after.length, after.head?⟩⟩], after⟩

/-- The statements of a scope up to the end or a token at which the scope stops, at most `count` of
them. A name counts as declared once its declaration is complete. -/
def scopeReading (declaration : List String → Rule Stmt) (stops : TokenKind → Bool) :
    Nat → List String → List Token → Reading (List Stmt)
  | 0, _, ts => ⟨[], [], ts⟩
  | _ + 1, _, [] => ⟨[], [], []⟩
  | count + 1, declared, t :: ts =>
    if stops t.kind then ⟨[], [], t :: ts⟩
    else
      let first := recovering (declaration declared) (t :: ts)
      let names := (first.value.bind Stmt.declares).toList ++ declared
      let others := scopeReading declaration stops count names first.rest
      ⟨first.value.toList ++ others.value, first.reports ++ others.reports, others.rest⟩

/-- The statements of a fresh scope. No more declarations can follow than there are tokens. -/
def scopeOf (room : Nat) (inner : Option (Rule (List Stmt))) (stops : TokenKind → Bool)
    (ts : List Token) : Reading (List Stmt) :=
  scopeReading (declarationRule room inner) stops ts.length [] ts

/-- The statements up to a closing brace. -/
def bodyRule (room : Nat) (inner : Option (Rule (List Stmt))) : Rule (List Stmt) := fun ts =>
  let scope := scopeOf room inner (· = .rightBrace) ts
  ⟨.ok scope.value, scope.reports, scope.rest⟩

/-- The statements of a block and its closing brace. -/
def blockRule (room : Nat) (inner : Option (Rule (List Stmt))) : Rule (List Stmt) := do
  let body ← bodyRule room inner
  let _ ← Rule.expect .rightBrace .expectBraceAfterBlock
  return body

/-- The rule for blocks inside statements with so much room, if there is any. -/
def innerBlockRule : Nat → Option (Rule (List Stmt))
  | 0 => none
  | room + 1 => some (blockRule room (innerBlockRule room))

/-- The statements of a whole program. -/
def programReading (ts : List Token) : Reading (List Stmt) :=
  scopeOf maxNesting (innerBlockRule maxNesting) (fun _ => false) ts

/-- The statements that were read, the errors, and the token that stands for the end. -/
structure Parse where
  statements : List Stmt
  reports : List SyntaxReport
  eof : Token

/-- The position behind a list of tokens. -/
def endPosition (tokens : List Token) : Position :=
  match tokens.getLast? with
  | some t => ⟨t.span.stop, t.line⟩
  | none => .start

/-- The first token for the end of the text, or one behind the last token. -/
def endToken (tokens : List Token) : Token :=
  (tokens.find? (·.kind = .eof)).getD (eofToken (endPosition tokens))

/-- The diagnostics of a reading, in the order in which the errors were found. -/
def Parse.diagnostics (p : Parse) : List Diagnostic :=
  p.reports.map fun r => r.error.diagnostic p.eof

/-- Reads the tokens in front of the first token for the end of the text. -/
def parse (tokens : List Token) : Parse :=
  let program := programReading (tokens.takeWhile (·.kind ≠ .eof))
  { statements := program.value
    reports := program.reports
    eof := endToken tokens }

end Treewalk
