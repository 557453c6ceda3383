import Treewalk.Proofs.Grammar.Invariants
import Treewalk.Proofs.Grammar.Parsing
import Treewalk.Proofs.Lexing.FirstPiece

/-! How deep the trees of a program are. The nesting limit bounds groupings, unary operators,
assignments and blocks on a path, but not operators with two operands: a sum of many terms leans to
the left, and each of its signs is a level of its own. So the height of what is read exceeds its
operators by a constant at most, and there is no bound for it. -/

namespace Treewalk

/-- How many nodes lie on one path to a leaf, at most. Evaluating and showing an expression nest
their calls as deep. -/
def Expr.height : Expr → Nat
  | .literal _ => 1
  | .grouping inner => inner.height + 1
  | .unary _ _ operand => operand.height + 1
  | .binary _ _ left right => max left.height right.height + 1
  | .variable _ => 1
  | .assign _ value => value.height + 1

/-- How many operators with two operands lie on one path, at most. -/
def Expr.operators : Expr → Nat
  | .literal _ => 0
  | .grouping inner => inner.operators
  | .unary _ _ operand => operand.operators
  | .binary _ _ left right => max left.operators right.operators + 1
  | .variable _ => 0
  | .assign _ value => value.operators

mutual

def Stmt.height : Stmt → Nat
  | .expression expr => expr.height + 1
  | .print _ expr => expr.height + 1
  | .var _ none => 1
  | .var _ (some initializer) => initializer.height + 1
  | .block body => Stmt.listHeight body + 1

def Stmt.listHeight : List Stmt → Nat
  | [] => 0
  | stmt :: rest => max stmt.height (Stmt.listHeight rest)

end

mutual

def Stmt.operators : Stmt → Nat
  | .expression expr => expr.operators
  | .print _ expr => expr.operators
  | .var _ none => 0
  | .var _ (some initializer) => initializer.operators
  | .block body => Stmt.listOperators body

def Stmt.listOperators : List Stmt → Nat
  | [] => 0
  | stmt :: rest => max stmt.operators (Stmt.listOperators rest)

end

section Bounds

theorem Expr.operators_lt_height (e : Expr) : e.operators < e.height := by
  induction e with
  | literal _ | «variable» _ => exact Nat.zero_lt_one
  | grouping _ ih | unary _ _ _ ih | assign _ _ ih => exact Nat.lt_succ_of_lt ih
  | binary op token left right ihl ihr =>
    simp only [Expr.operators, Expr.height]
    omega

/-- Every node on a path is a leaf, a nesting one or an operator with two operands. -/
theorem Expr.height_le (e : Expr) : e.height ≤ e.nesting + e.operators + 1 := by
  induction e with
  | literal _ | «variable» _ => exact Nat.le_refl _
  | grouping _ ih | unary _ _ _ ih | assign _ _ ih =>
    simp only [Expr.height, Expr.nesting, Expr.operators]
    omega
  | binary op token left right ihl ihr =>
    simp only [Expr.height, Expr.nesting, Expr.operators]
    omega

mutual

theorem Stmt.operators_lt_height : ∀ stmt : Stmt, stmt.operators < stmt.height
  | .expression expr | .print _ expr | .var _ (some expr) => by
    have he := expr.operators_lt_height
    simp only [Stmt.operators, Stmt.height]
    omega
  | .var _ none => by
    simp only [Stmt.operators, Stmt.height]
    omega
  | .block body => by
    have hb := Stmt.listOperators_le_listHeight body
    simp only [Stmt.operators, Stmt.height]
    omega

theorem Stmt.listOperators_le_listHeight : ∀ stmts : List Stmt,
    Stmt.listOperators stmts ≤ Stmt.listHeight stmts
  | [] => Nat.le_refl _
  | stmt :: rest => by
    have hs := stmt.operators_lt_height
    have hr := Stmt.listOperators_le_listHeight rest
    simp only [Stmt.listOperators, Stmt.listHeight]
    omega

end

mutual

theorem Stmt.height_le : ∀ stmt : Stmt, stmt.height ≤ stmt.nesting + stmt.operators + 2
  | .expression expr | .print _ expr | .var _ (some expr) => by
    have he := expr.height_le
    simp only [Stmt.height, Stmt.nesting, Stmt.operators]
    omega
  | .var _ none => by
    simp only [Stmt.height]
    omega
  | .block body => by
    have hb := Stmt.listHeight_le body
    simp only [Stmt.height, Stmt.nesting, Stmt.operators]
    omega

theorem Stmt.listHeight_le : ∀ stmts : List Stmt,
    Stmt.listHeight stmts ≤ Stmt.listNesting stmts + Stmt.listOperators stmts + 2
  | [] => Nat.zero_le _
  | stmt :: rest => by
    have hs := stmt.height_le
    have hr := Stmt.listHeight_le rest
    simp only [Stmt.listHeight, Stmt.listNesting, Stmt.listOperators]
    omega

end

theorem Stmt.nesting_le_of_mem {stmt : Stmt} {stmts : List Stmt} (h : stmt ∈ stmts) :
    stmt.nesting ≤ Stmt.listNesting stmts := by
  induction stmts with
  | nil => cases h
  | cons first rest ih =>
    rw [Stmt.listNesting]
    rcases List.mem_cons.mp h with he | hr
    · rw [he]
      exact Nat.le_max_left _ _
    · exact Nat.le_trans (ih hr) (Nat.le_max_right _ _)

/-- A statement that was read from a source is as high as its operators with two operands stand on
one path, up to a constant that the nesting limit gives. -/
theorem height_le_of_mem_parse (source : String) :
    ∀ stmt ∈ (parse (scan source).tokens).statements,
      stmt.operators < stmt.height ∧ stmt.height ≤ maxNesting + stmt.operators + 2 := by
  intro stmt hstmt
  have hn := Stmt.nesting_le_of_mem hstmt
  have hlimit := listNesting_parse_le (scan source).tokens
  have hh := stmt.height_le
  exact ⟨stmt.operators_lt_height, by omega⟩

theorem height_le_of_mem_parse_product :
    let stmts := (parse (scan "print (1 + -2) * 3;").tokens).statements
    stmts.map Stmt.height = [6] ∧
      ∀ stmt ∈ stmts, stmt.operators < stmt.height ∧
        stmt.height ≤ maxNesting + stmt.operators + 2 :=
  ⟨by decide +kernel, height_le_of_mem_parse "print (1 + -2) * 3;"⟩

end Bounds

section Sums

/-! A sum of `n + 1` ones, as text, as tokens and as a tree. -/

def sumTail : Nat → List Char
  | 0 => [';']
  | n + 1 => '+' :: '1' :: sumTail n

theorem pieces_one_sumTail (n : Nat) :
    pieces ('1' :: sumTail n) = .lexeme .number ['1'] :: pieces (sumTail n) := by
  have ht : numberTail (sumTail n) = [] := by cases n <;> rfl
  rw [pieces_cons, firstPiece_of_isDigit (by decide), ht]
  rfl

theorem pieces_sumTail_succ (n : Nat) :
    pieces (sumTail (n + 1)) =
      .lexeme .plus ['+'] :: .lexeme .number ['1'] :: pieces (sumTail n) := by
  have hp : firstPiece '+' ('1' :: sumTail n) = .lexeme .plus ['+'] := rfl
  rw [sumTail, pieces_cons, hp]
  exact congrArg (Piece.lexeme .plus ['+'] :: ·) (pieces_one_sumTail n)

/-- A number is a factor on its own. -/
def numberTree (t : Terminal .number) : ExprTree Tier.term.operand :=
  @ExprTree.operation .factor (.primary (.atom (.number t))) .nil

theorem tokens_sumTail (n : Nat) (p : Position) :
    ∃ (d : OperandTrees .term) (semicolon : Terminal .semicolon),
      (placedPieces p (pieces (sumTail n))).filterMap pieceToken? = d.tokens ++ [semicolon.val] ∧
      (placedPieces p (pieces (sumTail n))).filterMap pieceError? = [] ∧
      ∀ left, (d.expr left).nesting = left.nesting ∧ left.height + n ≤ (d.expr left).height := by
  induction n generalizing p with
  | zero =>
    refine ⟨.nil, ⟨lexemeToken p .semicolon [';'], rfl⟩, rfl, rfl, ?_⟩
    intro left
    exact ⟨rfl, Nat.le_refl _⟩
  | succ n ih =>
    let q := p.after ['+']
    obtain ⟨d, semicolon, htokens, herrors, hd⟩ := ih (q.after ['1'])
    let plus : Terminal BinaryOp.add.kind := ⟨lexemeToken p .plus ['+'], rfl⟩
    let one : Terminal .number := ⟨lexemeToken q .number ['1'], rfl⟩
    refine ⟨.cons .add rfl plus (numberTree one) d, semicolon, ?_, ?_, ?_⟩
    · rw [pieces_sumTail_succ]
      exact congrArg (fun ts => plus.val :: one.val :: ts) htokens
    · rw [pieces_sumTail_succ]
      exact herrors
    · intro left
      obtain ⟨hnesting, hheight⟩ := hd (.binary .add plus.val left (numberTree one).expr)
      have hone : (numberTree one).expr.nesting = 0 := rfl
      rw [Expr.nesting, hone, Nat.max_zero] at hnesting
      rw [Expr.height] at hheight
      have htall : left.height + (n + 1) ≤
          (d.expr (.binary .add plus.val left (numberTree one).expr)).height := by omega
      exact ⟨hnesting, htall⟩

/-- For every number there is a source without an error that gives a higher statement. -/
theorem exists_height_gt (n : Nat) :
    ∃ source, (scan source).errors = [] ∧ (parse (scan source).tokens).diagnostics = [] ∧
      ∃ stmt ∈ (parse (scan source).tokens).statements, n < stmt.height := by
  obtain ⟨d, semicolon, htokens, herrors, hd⟩ := tokens_sumTail n (Position.start.after ['1'])
  let one : Terminal .number := ⟨lexemeToken .start .number ['1'], rfl⟩
  let sum : ExprTree (.operation .term) := .operation (numberTree one) d
  let ds : List StmtTree := [.expression (.equality (@ExprTree.operation .equality
    (@ExprTree.operation .comparison sum .nil) .nil)) semicolon]
  obtain ⟨hnesting, hheight⟩ := hd (numberTree one).expr
  have hstmts : StmtTree.listStmts ds = [.expression sum.expr] := rfl
  have hlimit : Stmt.listNesting (StmtTree.listStmts ds) ≤ maxNesting := by
    have hsum : sum.expr.nesting = 0 := hnesting
    have hlist : Stmt.listNesting (StmtTree.listStmts ds) = max sum.expr.nesting 0 := rfl
    omega
  let source := String.ofList ('1' :: sumTail n)
  have hpieces : pieces source.toList = .lexeme .number ['1'] :: pieces (sumTail n) := by
    rw [String.toList_ofList, pieces_one_sumTail]
  have hscan : (scan source).tokens =
      StmtTree.listTokens ds ++ [eofToken (Position.start.after source.toList)] := by
    have hds : StmtTree.listTokens ds = one.val :: (d.tokens ++ [semicolon.val]) := by
      simp [ds, sum, StmtTree.listTokens, StmtTree.tokens, ExprTree.tokens, OperandTrees.tokens,
        numberTree, Atom.token]
    rw [hds, ← htokens, scan, hpieces]
    rfl
  have hread : (scan source).tokens.takeWhile (·.kind ≠ .eof) = StmtTree.listTokens ds := by
    rw [hscan]
    exact takeWhile_listTokens ds (by simp [eofToken])
  have hprogram := programReading_listTokens hlimit
  refine ⟨source, ?_, ?_, .expression sum.expr, ?_, ?_⟩
  · rw [scan, hpieces]
    exact herrors
  · rw [Parse.diagnostics, parse, hread, hprogram, hstmts]
    rfl
  · rw [parse, hread, hprogram, hstmts]
    exact List.mem_singleton_self _
  · have htall : n < sum.expr.height + 1 := by
      have hsum : (numberTree one).expr.height + n ≤ sum.expr.height := hheight
      omega
    exact htall

theorem height_unbounded :
    ¬ ∃ bound, ∀ source, (scan source).errors = [] →
      (parse (scan source).tokens).diagnostics = [] →
        ∀ stmt ∈ (parse (scan source).tokens).statements, stmt.height ≤ bound := by
  rintro ⟨bound, h⟩
  obtain ⟨source, hscan, hparse, stmt, hmem, hgt⟩ := exists_height_gt bound
  have hle := h source hscan hparse stmt hmem
  omega

end Sums

end Treewalk
