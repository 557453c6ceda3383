import Treewalk.Grammar.Rule

/-! The rules for expressions, from the tightest binding to the loosest: primary, unary, factor,
term, comparison, equality, assignment. Nesting is bounded: every grouping, unary operator and
assigned expression is read by the rules of a level with less room. -/

namespace Treewalk

def unaryOp? : TokenKind → Option UnaryOp
  | .bang => some .not
  | .minus => some .negate
  | _ => none

def factorOp? : TokenKind → Option BinaryOp
  | .slash => some .divide
  | .star => some .multiply
  | _ => none

def termOp? : TokenKind → Option BinaryOp
  | .minus => some .subtract
  | .plus => some .add
  | _ => none

def comparisonOp? : TokenKind → Option BinaryOp
  | .greater => some .greater
  | .greaterEqual => some .greaterEqual
  | .less => some .less
  | .lessEqual => some .lessEqual
  | _ => none

def equalityOp? : TokenKind → Option BinaryOp
  | .bangEqual => some .notEqual
  | .equalEqual => some .equal
  | _ => none

/-- The expression that a token is on its own. A literal token without a value counts as nil. -/
def atom? (t : Token) : Option Expr :=
  match t.kind with
  | .false => some (.literal (.bool false))
  | .true => some (.literal (.bool true))
  | .nil => some (.literal .nil)
  | .number => some (.literal (t.literal.getD .nil))
  | .string => some (.literal (t.literal.getD .nil))
  | .identifier => some (.variable t)
  | _ => none

/-- The two rules that nested expressions are read by. -/
structure ExprRules where
  operand : Rule Expr
  expression : Rule Expr

/-- The opening parenthesis has been read. -/
def groupingRule (inner : Option ExprRules) (paren : Token) : Rule Expr := do
  let e ← Rule.nested paren (inner.map ExprRules.expression)
  let _ ← Rule.expect .rightParen .expectParenAfterExpression
  return .grouping e

/-- An atom or a grouping. -/
def primaryRule (inner : Option ExprRules) : Rule Expr
  | [] => Rule.failHere .expectExpression []
  | t :: ts =>
    match atom? t with
    | some e => ⟨.ok e, [], ts⟩
    | none =>
      if t.kind = .leftParen then groupingRule inner t ts
      else Rule.failHere .expectExpression (t :: ts)

/-- A primary expression behind any number of unary operators. -/
def unaryRule (inner : Option ExprRules) : Rule Expr := do
  match ← Rule.accept? unaryOp? with
  | some (op, token) =>
    let operand ← Rule.nested token (inner.map ExprRules.operand)
    return .unary op token operand
  | none => primaryRule inner

/-- Further operators and operands behind `left`, at most `count` of them. -/
def chainRule (op? : TokenKind → Option BinaryOp) (operand : Rule Expr) :
    Nat → Expr → Rule Expr
  | 0, left => Rule.pure left
  | count + 1, left => do
    match ← Rule.accept? op? with
    | some (op, token) =>
      let right ← operand
      chainRule op? operand count (.binary op token left right)
    | none => return left

/-- Operands joined by operators, grouped from the left. No more operators can follow than there
are tokens. -/
def leftAssociative (op? : TokenKind → Option BinaryOp) (operand : Rule Expr) : Rule Expr := do
  let first ← operand
  fun ts => chainRule op? operand ts.length first ts

def factorRule (inner : Option ExprRules) : Rule Expr :=
  leftAssociative factorOp? (unaryRule inner)

def termRule (inner : Option ExprRules) : Rule Expr :=
  leftAssociative termOp? (factorRule inner)

def comparisonRule (inner : Option ExprRules) : Rule Expr :=
  leftAssociative comparisonOp? (termRule inner)

def equalityRule (inner : Option ExprRules) : Rule Expr :=
  leftAssociative equalityOp? (comparisonRule inner)

/-- The expression that `left = value` stands for. Only a name can be assigned to; anything else is
reported and kept without the assignment. -/
def assignRule (left : Expr) (equals : Token) (value : Expr) : Rule Expr :=
  match left with
  | .variable name => Rule.pure (.assign name value)
  | _ => do
    let _ ← Rule.report .invalidTarget equals
    return left

def assignmentRule (inner : Option ExprRules) : Rule Expr := do
  let left ← equalityRule inner
  match ← Rule.accept? (only .equal) with
  | some (_, equals) =>
    let value ← Rule.nested equals (inner.map ExprRules.expression)
    assignRule left equals value
  | none => return left

/-- The rules of the level above `inner`. -/
def ExprRules.above (inner : Option ExprRules) : ExprRules where
  operand := unaryRule inner
  expression := assignmentRule inner

/-- The rules for expressions with room for so many levels of nesting below them. -/
def exprRules : Nat → ExprRules
  | 0 => .above none
  | room + 1 => .above (some (exprRules room))

def expressionRule (room : Nat) : Rule Expr :=
  (exprRules room).expression

end Treewalk
