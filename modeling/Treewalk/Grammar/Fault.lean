import Treewalk.Diagnostic
import Treewalk.Text.Numeric

/-! Syntax errors: what can be wrong with a sequence of tokens, and how it is said. -/

namespace Treewalk

/-- The deepest nesting of groupings, unary operators, assigned expressions and blocks. -/
def maxNesting : Nat := 64

inductive SyntaxFault where
  | expectExpression
  | expectName
  | expectSemicolonAfterDeclaration
  | expectSemicolonAfterValue
  | expectSemicolonAfterExpression
  | expectParenAfterExpression
  | expectBraceAfterBlock
  | tooMuchNesting
  | invalidTarget
  | redeclared (name : String)
deriving DecidableEq, Repr

/-- A fault and the token it was found at, or none at the end of the text. -/
structure SyntaxError where
  fault : SyntaxFault
  place : Option Token
deriving DecidableEq

def SyntaxFault.message : SyntaxFault → String
  | .expectExpression => "Expect expression."
  | .expectName => "Expect variable name."
  | .expectSemicolonAfterDeclaration => "Expect ';' after variable declaration."
  | .expectSemicolonAfterValue => "Expect ';' after value."
  | .expectSemicolonAfterExpression => "Expect ';' after expression."
  | .expectParenAfterExpression => "Expect ')' after expression."
  | .expectBraceAfterBlock => "Expect '\x7d' after block."
  | .tooMuchNesting => "Too much nesting."
  | .invalidTarget => "Invalid assignment target."
  | .redeclared name => "Already a variable named '" ++ name ++ "' in this scope."

/-- Advice on a fault at a token with the given text. Names and literals begin expressions, so any
other word where an expression should begin is a reserved one. -/
def SyntaxFault.help (lexeme : String) : SyntaxFault → Option String
  | .expectExpression =>
    if lexeme.toList.head?.any isAlphabetic then
      some ("'" ++ lexeme ++ "' is a reserved word and cannot be used here.")
    else none
  | .tooMuchNesting =>
    some ("At most " ++ toString maxNesting ++ " levels of nesting are allowed.")
  | .invalidTarget => some "Only a variable name can appear on the left-hand side of '='."
  | .redeclared _ => some "Assign to the existing variable, or declare it in a nested block."
  | _ => none

def SyntaxError.location (e : SyntaxError) : Location :=
  match e.place with
  | some t => .at t.lexeme
  | none => .atEnd

/-- The diagnostic of an error in a text that ends with the given token. -/
def SyntaxError.diagnostic (eof : Token) (e : SyntaxError) : Diagnostic :=
  let token := e.place.getD eof
  { phase := .syntactic
    span := token.span
    line := token.line
    location := e.location
    message := e.fault.message
    help := e.fault.help token.lexeme }

end Treewalk
