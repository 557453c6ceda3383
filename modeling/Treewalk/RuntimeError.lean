import Treewalk.Diagnostic
import Treewalk.Environment

/-! Errors of a running program. -/

namespace Treewalk

/-- What went wrong; operands are named by their types. -/
inductive RuntimeFault where
  | cannotNegate (operand : String)
  | cannotAdd (left right : String)
  | notNumbers (left right : String)
  | environment (error : EnvironmentError)
  | outputFailed (reason : String)
deriving DecidableEq, Repr

/-- A fault and the token of the operator, name or keyword at which it arose. -/
structure RuntimeError where
  fault : RuntimeFault
  token : Token
deriving DecidableEq

def RuntimeFault.message : RuntimeFault → String
  | .cannotNegate _ => "Operand must be a number."
  | .cannotAdd _ _ => "Operands must be two numbers or two strings."
  | .notNumbers _ _ => "Operands must be numbers."
  | .environment error => error.message
  | .outputFailed reason => "Failed to write output: " ++ reason

/-- Advice on a fault at a token with the given text. -/
def RuntimeFault.help (lexeme : String) : RuntimeFault → Option String
  | .cannotNegate operand => some ("Cannot negate a " ++ operand ++ ".")
  | .cannotAdd left right => some ("Cannot add " ++ left ++ " and " ++ right ++ ".")
  | .notNumbers left right =>
    some ("'" ++ lexeme ++ "' got " ++ left ++ " and " ++ right ++ ".")
  | .environment (.undefined _) => some "Declare it first with 'var'."
  | .environment (.alreadyDeclared _) => some "Assign to it instead of declaring it again."
  | .outputFailed _ => none

def RuntimeError.diagnostic (e : RuntimeError) : Diagnostic where
  phase := .runtime
  span := e.token.span
  line := e.token.line
  location := .nowhere
  message := e.fault.message
  help := e.fault.help e.token.lexeme

end Treewalk
