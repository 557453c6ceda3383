import Treewalk.Expr
import Treewalk.RuntimeError

/-! The value of an expression. Operands are evaluated from left to right, and assignments change
the environment even when a later part of the expression fails. -/

namespace Treewalk

def UnaryOp.apply : UnaryOp → Value → Except RuntimeFault Value
  | .negate, .number x => .ok (.number (-x))
  | .negate, v => .error (.cannotNegate v.typeName)
  | .not, v => .ok (.bool !v.truthy)

/-- The sum of two numbers, or two strings joined. -/
def addValues : Value → Value → Except RuntimeFault Value
  | .number x, .number y => .ok (.number (x + y))
  | .string s, .string t => .ok (.string (s ++ t))
  | v, w => .error (.cannotAdd v.typeName w.typeName)

/-- Applies a function of numbers to two values that must be numbers. -/
def onNumbers (f : Float → Float → Value) : Value → Value → Except RuntimeFault Value
  | .number x, .number y => .ok (f x y)
  | v, w => .error (.notNumbers v.typeName w.typeName)

/-- Arithmetic is that of binary64: dividing by zero gives an infinity or a NaN. -/
def BinaryOp.apply : BinaryOp → Value → Value → Except RuntimeFault Value
  | .add, v, w => addValues v w
  | .subtract, v, w => onNumbers (fun x y => .number (x - y)) v w
  | .multiply, v, w => onNumbers (fun x y => .number (x * y)) v w
  | .divide, v, w => onNumbers (fun x y => .number (x / y)) v w
  | .greater, v, w => onNumbers (fun x y => .bool (y < x)) v w
  | .greaterEqual, v, w => onNumbers (fun x y => .bool (y ≤ x)) v w
  | .less, v, w => onNumbers (fun x y => .bool (x < y)) v w
  | .lessEqual, v, w => onNumbers (fun x y => .bool (x ≤ y)) v w
  | .equal, v, w => .ok (.bool (v.equal w))
  | .notEqual, v, w => .ok (.bool !(v.equal w))

/-- Places a fault at a token. -/
def faultAt {α : Type} (token : Token) (result : Except RuntimeFault α) : Except RuntimeError α :=
  result.mapError (⟨·, token⟩)

/-- Places an error of the environment at a name. -/
def environmentFaultAt {α : Type} (name : Token) (result : Except EnvironmentError α) :
    Except RuntimeError α :=
  result.mapError (⟨.environment ·, name⟩)

/-- The value of an expression, and the environment after its assignments. -/
def Expr.eval : Expr → Environment → Except RuntimeError Value × Environment
  | .literal value, env => (.ok value, env)
  | .grouping inner, env => inner.eval env
  | .unary op token operand, env =>
    match operand.eval env with
    | (.ok value, env) => (faultAt token (op.apply value), env)
    | (.error e, env) => (.error e, env)
  | .binary op token left right, env =>
    match left.eval env with
    | (.ok value, env) =>
      match right.eval env with
      | (.ok other, env) => (faultAt token (op.apply value other), env)
      | (.error e, env) => (.error e, env)
    | (.error e, env) => (.error e, env)
  | .variable name, env => (environmentFaultAt name (env.get name.lexeme), env)
  | .assign name expr, env =>
    match expr.eval env with
    | (.ok value, env) =>
      match environmentFaultAt name (env.assign name.lexeme value) with
      | .ok env => (.ok value, env)
      | .error e => (.error e, env)
    | (.error e, env) => (.error e, env)

end Treewalk
