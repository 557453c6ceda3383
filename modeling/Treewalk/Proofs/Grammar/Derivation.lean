import Treewalk.Stmt

/-! Derivation trees of the grammar, one type for each kind of phrase:

  program     → declaration*
  declaration → "var" IDENTIFIER ("=" assignment)? ";" | assignment ";"
              | "print" assignment ";" | block
  block       → "{" declaration* "}"
  assignment  → IDENTIFIER "=" assignment | equality
  equality    → comparison (("!=" | "==") comparison)*
  comparison  → term ((">" | ">=" | "<" | "<=") term)*
  term        → factor (("-" | "+") factor)*
  factor      → unary (("/" | "*") unary)*
  unary       → ("!" | "-") unary | primary
  primary     → NUMBER | STRING | "true" | "false" | "nil" | IDENTIFIER | "(" assignment ")"

A tree holds every token that it derives, in order, and stands for an expression or a statement.
Nothing here refers to the rules by which tokens are read. -/

namespace Treewalk

/-- A terminal of the grammar: a token of the given kind. -/
abbrev Terminal (kind : TokenKind) := { t : Token // t.kind = kind }

/-- The four rules for operators with two operands. -/
inductive Tier where
  | equality
  | comparison
  | term
  | factor
deriving DecidableEq

inductive Nonterminal where
  | assignment
  | operation (tier : Tier)
  | unary
  | primary
deriving DecidableEq

/-- What the operators of a tier stand between: the next tier binds tighter. -/
def Tier.operand : Tier → Nonterminal
  | .equality => .operation .comparison
  | .comparison => .operation .term
  | .term => .operation .factor
  | .factor => .unary

def UnaryOp.kind : UnaryOp → TokenKind
  | .negate => .minus
  | .not => .bang

def BinaryOp.kind : BinaryOp → TokenKind
  | .add => .plus
  | .subtract => .minus
  | .multiply => .star
  | .divide => .slash
  | .equal => .equalEqual
  | .notEqual => .bangEqual
  | .less => .less
  | .lessEqual => .lessEqual
  | .greater => .greater
  | .greaterEqual => .greaterEqual

def BinaryOp.tier : BinaryOp → Tier
  | .equal | .notEqual => .equality
  | .less | .lessEqual | .greater | .greaterEqual => .comparison
  | .add | .subtract => .term
  | .multiply | .divide => .factor

inductive Atom where
  | number (t : Terminal .number)
  | string (t : Terminal .string)
  | true (t : Terminal .true)
  | false (t : Terminal .false)
  | nil (t : Terminal .nil)
  | name (t : Terminal .identifier)

def Atom.token : Atom → Token
  | .number t | .string t | .true t | .false t | .nil t | .name t => t.val

def Atom.expr : Atom → Expr
  | .number t | .string t => .literal (t.val.literal.getD .nil)
  | .true _ => .literal (.bool Bool.true)
  | .false _ => .literal (.bool Bool.false)
  | .nil _ => .literal .nil
  | .name t => .variable t.val

mutual

inductive ExprTree : Nonterminal → Type where
  | assign (name : Terminal .identifier) (equals : Terminal .equal)
      (value : ExprTree .assignment) : ExprTree .assignment
  | equality (e : ExprTree (.operation .equality)) : ExprTree .assignment
  | operation {tier : Tier} (first : ExprTree tier.operand) (others : OperandTrees tier) :
      ExprTree (.operation tier)
  | unary (op : UnaryOp) (token : Terminal op.kind) (operand : ExprTree .unary) : ExprTree .unary
  | primary (e : ExprTree .primary) : ExprTree .unary
  | atom (a : Atom) : ExprTree .primary
  | grouping (left : Terminal .leftParen) (inner : ExprTree .assignment)
      (right : Terminal .rightParen) : ExprTree .primary

/-- Any number of operators of one tier, each with the operand to its right. -/
inductive OperandTrees : Tier → Type where
  | nil {tier : Tier} : OperandTrees tier
  | cons {tier : Tier} (op : BinaryOp) (tier_eq : op.tier = tier) (token : Terminal op.kind)
      (operand : ExprTree tier.operand) (others : OperandTrees tier) : OperandTrees tier

end

mutual

def ExprTree.tokens {n : Nonterminal} : ExprTree n → List Token
  | .assign name equals value => name.val :: equals.val :: value.tokens
  | .equality e => e.tokens
  | .operation first others => first.tokens ++ others.tokens
  | .unary _ token operand => token.val :: operand.tokens
  | .primary e => e.tokens
  | .atom a => [a.token]
  | .grouping left inner right => left.val :: (inner.tokens ++ [right.val])

def OperandTrees.tokens {tier : Tier} : OperandTrees tier → List Token
  | .nil => []
  | .cons _ _ token operand others => token.val :: (operand.tokens ++ others.tokens)

end

mutual

def ExprTree.expr {n : Nonterminal} : ExprTree n → Expr
  | .assign name _ value => .assign name.val value.expr
  | .equality e => e.expr
  | .operation first others => others.expr first.expr
  | .unary op token operand => .unary op token.val operand.expr
  | .primary e => e.expr
  | .atom a => a.expr
  | .grouping _ inner _ => .grouping inner.expr

/-- The expression that operators and operands behind `left` make with it: each operator takes all
that stands to its left. -/
def OperandTrees.expr {tier : Tier} : OperandTrees tier → Expr → Expr
  | .nil, left => left
  | .cons op _ token operand others, left =>
    others.expr (.binary op token.val left operand.expr)

end

/-- A unary expression as an equality, with no operator that has two operands. -/
def ExprTree.single (e : ExprTree .unary) : ExprTree (.operation .equality) :=
  .operation (.operation (.operation (.operation e .nil) .nil) .nil) .nil

@[simp]
theorem ExprTree.tokens_single (e : ExprTree .unary) : e.single.tokens = e.tokens := by
  have h : e.single.tokens = (((e.tokens ++ []) ++ []) ++ []) ++ [] := rfl
  simpa only [List.append_nil] using h

inductive StmtTree where
  | expression (expr : ExprTree .assignment) (semicolon : Terminal .semicolon)
  | print (keyword : Terminal .print) (expr : ExprTree .assignment)
      (semicolon : Terminal .semicolon)
  | var (keyword : Terminal .var) (name : Terminal .identifier)
      (initializer : Option (Terminal .equal × ExprTree .assignment))
      (semicolon : Terminal .semicolon)
  | block (left : Terminal .leftBrace) (body : List StmtTree) (right : Terminal .rightBrace)

def initializerTokens : Option (Terminal .equal × ExprTree .assignment) → List Token
  | none => []
  | some (equals, e) => equals.val :: e.tokens

mutual

def StmtTree.tokens : StmtTree → List Token
  | .expression e semicolon => e.tokens ++ [semicolon.val]
  | .print keyword e semicolon => keyword.val :: (e.tokens ++ [semicolon.val])
  | .var keyword name initializer semicolon =>
    keyword.val :: name.val :: (initializerTokens initializer ++ [semicolon.val])
  | .block left body right => left.val :: (StmtTree.listTokens body ++ [right.val])

/-- The tokens of a program, or of the body of a block. -/
def StmtTree.listTokens : List StmtTree → List Token
  | [] => []
  | d :: ds => d.tokens ++ StmtTree.listTokens ds

end

mutual

def StmtTree.stmt : StmtTree → Stmt
  | .expression e _ => .expression e.expr
  | .print keyword e _ => .print keyword.val e.expr
  | .var _ name initializer _ => .var name.val (initializer.map fun i => i.2.expr)
  | .block _ body _ => .block (StmtTree.listStmts body)

def StmtTree.listStmts : List StmtTree → List Stmt
  | [] => []
  | d :: ds => d.stmt :: StmtTree.listStmts ds

end

/-- How many groupings, unary operators and assignments lie on one path to a leaf, at most. -/
def Expr.nesting : Expr → Nat
  | .literal _ => 0
  | .grouping inner => inner.nesting + 1
  | .unary _ _ operand => operand.nesting + 1
  | .binary _ _ left right => max left.nesting right.nesting
  | .variable _ => 0
  | .assign _ value => value.nesting + 1

mutual

/-- As `Expr.nesting`, with blocks counted too. -/
def Stmt.nesting : Stmt → Nat
  | .expression expr => expr.nesting
  | .print _ expr => expr.nesting
  | .var _ none => 0
  | .var _ (some initializer) => initializer.nesting
  | .block body => Stmt.listNesting body + 1

def Stmt.listNesting : List Stmt → Nat
  | [] => 0
  | stmt :: rest => max stmt.nesting (Stmt.listNesting rest)

end

mutual

/-- No block in the statement declares a name twice. -/
def Stmt.DistinctNames : Stmt → Prop
  | .block body => (body.filterMap Stmt.declares).Nodup ∧ Stmt.ListDistinctNames body
  | _ => True

def Stmt.ListDistinctNames : List Stmt → Prop
  | [] => True
  | stmt :: rest => stmt.DistinctNames ∧ Stmt.ListDistinctNames rest

end

mutual

/-- The names declared in the statement although their scope has declared them before; `declared`
are the names of the scope that the statement itself stands in. -/
def Stmt.redeclared (declared : List String) : Stmt → List Token
  | .var name _ => if name.lexeme ∈ declared then [name] else []
  | .block body => Stmt.listRedeclared [] body
  | _ => []

def Stmt.listRedeclared (declared : List String) : List Stmt → List Token
  | [] => []
  | stmt :: rest =>
    stmt.redeclared declared ++ Stmt.listRedeclared (stmt.declares.toList ++ declared) rest

end

end Treewalk
