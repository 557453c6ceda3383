import Treewalk.Token

/-! Expressions. Operators and names keep the token they were read from, so that an error can
point at it. -/

namespace Treewalk

inductive UnaryOp where
  | negate
  | not
deriving DecidableEq, Repr

inductive BinaryOp where
  | add
  | subtract
  | multiply
  | divide
  | equal
  | notEqual
  | less
  | lessEqual
  | greater
  | greaterEqual
deriving DecidableEq, Repr

def UnaryOp.symbol : UnaryOp → String
  | .negate => "-"
  | .not => "!"

def BinaryOp.symbol : BinaryOp → String
  | .add => "+"
  | .subtract => "-"
  | .multiply => "*"
  | .divide => "/"
  | .equal => "=="
  | .notEqual => "!="
  | .less => "<"
  | .lessEqual => "<="
  | .greater => ">"
  | .greaterEqual => ">="

inductive Expr where
  | literal (value : Value)
  | grouping (inner : Expr)
  | unary (op : UnaryOp) (token : Token) (operand : Expr)
  | binary (op : BinaryOp) (token : Token) (left right : Expr)
  | variable (name : Token)
  | assign (name : Token) (value : Expr)
deriving DecidableEq

/-- The expression with every operator in front of its operands. -/
def Expr.text : Expr → String
  | .literal value => value.literalText
  | .grouping inner => "(group " ++ inner.text ++ ")"
  | .unary op _ operand => "(" ++ op.symbol ++ " " ++ operand.text ++ ")"
  | .binary op _ left right =>
    "(" ++ op.symbol ++ " " ++ left.text ++ " " ++ right.text ++ ")"
  | .variable name => name.lexeme
  | .assign name value => "(= " ++ name.lexeme ++ " " ++ value.text ++ ")"

end Treewalk
