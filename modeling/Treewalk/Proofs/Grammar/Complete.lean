import Treewalk.Proofs.Grammar.Follow
import Treewalk.Proofs.Grammar.StatementReads

/-! Every derivation within the nesting limit is read back as its own tree. An expression is read
up to the first token that cannot carry it on, whatever follows. -/

namespace Treewalk

theorem OperandTrees.nesting_le_expr : ∀ {tier : Tier} (d : OperandTrees tier) (left : Expr),
    left.nesting ≤ (d.expr left).nesting
  | _, .nil, _ => Nat.le_refl _
  | _, .cons op _ token operand others, left => by
    have h := others.nesting_le_expr (.binary op token.val left operand.expr)
    rw [Expr.nesting] at h
    rw [OperandTrees.expr]
    omega

theorem chainRule_reads_stopped {op? : TokenKind → Option BinaryOp} {ts : List Token}
    (h : ∀ t ∈ ts.head?, op? t.kind = none) (operand : Rule Expr) (count : Nat) (left : Expr) :
    (chainRule op? operand count left).Reads ts left [] ts := by
  cases count with
  | zero => rfl
  | succ count => exact chainRule_reads.mpr (.inr ⟨h, rfl, rfl⟩)

theorem operation_reads_operand {inner : Option ExprRules} (tier : Tier) {ts rest : List Token}
    {e : Expr} (h : (tier.operand.rule inner).Reads ts e [] rest)
    (hs : (Nonterminal.operation tier).Stops rest) :
    ((Nonterminal.operation tier).rule inner).Reads ts e [] rest := by
  rw [Nonterminal.rule_operation]
  exact leftAssociative_reads.mpr
    ⟨e, rest, h, chainRule_reads_stopped (op?_eq_none_of_stops hs) _ _ _⟩

theorem equalityRule_reads_name (inner : Option ExprRules) (name : Terminal .identifier)
    {rest : List Token} (hs : (Nonterminal.operation .equality).Stops rest) :
    (equalityRule inner).Reads (name.val :: rest) (.variable name.val) [] rest := by
  have hc : (Nonterminal.operation .comparison).Stops rest := stops_operand hs
  have ht : (Nonterminal.operation .term).Stops rest := stops_operand hc
  have hf : (Nonterminal.operation .factor).Stops rest := stops_operand ht
  have hu : (unaryRule inner).Reads (name.val :: rest) (.variable name.val) [] rest := by
    refine unaryRule_reads.mpr (.inr ⟨?_, ?_⟩)
    · simp [name.property, unaryOp?]
    · exact primaryRule_reads.mpr (.inl ⟨name.val, rfl, (Atom.name name).atom?_token⟩)
  have h₁ := operation_reads_operand .factor hu hf
  have h₂ := operation_reads_operand .term h₁ ht
  have h₃ := operation_reads_operand .comparison h₂ hc
  exact operation_reads_operand .equality h₃ hs

mutual

/-- The rule of a nonterminal reads every phrase derived from it. -/
theorem ExprTree.reads : ∀ {n : Nonterminal} (d : ExprTree n) {room : Nat} {rest : List Token},
    d.expr.nesting ≤ room → n.Stops rest →
      (n.rule (innerRules room)).Reads (d.tokens ++ rest) d.expr [] rest
  | _, .assign name equals value, room, rest, h, hs => by
    rw [ExprTree.expr, Expr.nesting] at h
    obtain ⟨r, rfl⟩ : ∃ r, room = r + 1 := ⟨room - 1, by omega⟩
    -- The name is an equality in its own right, so the rule takes it as one before it sees `=`.
    have hn := equalityRule_reads_name (innerRules (r + 1)) name
      (equal_stops_equality equals (value.tokens ++ rest))
    exact assignmentRule_reads.mpr (.inl ⟨name.val, equals.val, value.tokens ++ rest, value.expr,
      hn, equals.property, nested_expression_reads.mpr ⟨r, rfl, value.reads (by omega) hs⟩, rfl⟩)
  | _, .equality e, room, rest, h, hs => by
    refine assignmentRule_reads.mpr (.inr ⟨e.reads h (stops_equality hs), ?_⟩)
    intro t ht hk
    exact hs t ht (.inl hk)
  | .operation tier, .operation first others, room, rest, h, hs => by
    rw [ExprTree.expr] at h
    have hf := others.nesting_le_expr first.expr
    rw [Nonterminal.rule_operation, ExprTree.tokens, List.append_assoc]
    exact leftAssociative_reads.mpr ⟨first.expr, others.tokens ++ rest,
      first.reads (by omega) (others.stops_operand hs), others.reads (by omega) hs (Nat.le_refl _)⟩
  | _, .unary op token operand, room, rest, h, hs => by
    rw [ExprTree.expr, Expr.nesting] at h
    obtain ⟨r, rfl⟩ : ∃ r, room = r + 1 := ⟨room - 1, by omega⟩
    exact unaryRule_reads.mpr (.inl ⟨op, token.val, operand.tokens ++ rest, operand.expr, rfl,
      unaryOp?_eq_some_iff.mpr token.property.symm,
      nested_operand_reads.mpr ⟨r, rfl, operand.reads (by omega) hs⟩, rfl⟩)
  | _, .primary e, room, rest, h, hs => by
    refine unaryRule_reads.mpr (.inr ⟨?_, e.reads h hs⟩)
    obtain ⟨t, ts, ht, hk⟩ := e.primary_head
    rw [ExprTree.tokens, ht]
    simpa using unaryOp?_eq_none_of_opensPrimary hk
  | _, .atom a, room, rest, _, _ =>
    primaryRule_reads.mpr (.inl ⟨a.token, rfl, a.atom?_token⟩)
  | _, .grouping left inner right, room, rest, h, hs => by
    rw [ExprTree.expr, Expr.nesting] at h
    obtain ⟨r, rfl⟩ : ∃ r, room = r + 1 := ⟨room - 1, by omega⟩
    have hi : (Nonterminal.assignment.rule (innerRules r)).Reads
        (inner.tokens ++ right.val :: rest) inner.expr [] (right.val :: rest) :=
      inner.reads (by omega) (closer_stops_assignment (.inr right.property))
    refine primaryRule_reads.mpr (.inr ⟨left.val, inner.tokens ++ right.val :: rest, inner.expr,
      right.val, by simp [ExprTree.tokens], left.property,
      nested_expression_reads.mpr ⟨r, rfl, hi⟩, right.property, rfl⟩)

theorem OperandTrees.reads : ∀ {tier : Tier} (d : OperandTrees tier) {left : Expr} {room count : Nat}
    {rest : List Token}, (d.expr left).nesting ≤ room → (Nonterminal.operation tier).Stops rest →
      (d.tokens ++ rest).length ≤ count →
      (chainRule tier.op? (tier.operand.rule (innerRules room)) count left).Reads
        (d.tokens ++ rest) (d.expr left) [] rest
  | tier, .nil, left, room, count, rest, h, hs, hc =>
    chainRule_reads_stopped (op?_eq_none_of_stops hs) _ _ _
  | tier, .cons op tier_eq token operand others, left, room, count, rest, h, hs, hc => by
    rw [OperandTrees.expr] at h
    rw [OperandTrees.tokens] at hc
    simp only [List.cons_append, List.append_assoc, List.length_cons] at hc
    obtain ⟨c, rfl⟩ : ∃ c, count = c + 1 := ⟨count - 1, by omega⟩
    have hn := others.nesting_le_expr (.binary op token.val left operand.expr)
    rw [Expr.nesting] at hn
    refine chainRule_reads.mpr (.inl ⟨op, token.val, operand.tokens ++ (others.tokens ++ rest),
      operand.expr, others.tokens ++ rest, by simp [OperandTrees.tokens],
      Tier.op?_eq_some_iff.mpr ⟨tier_eq, token.property.symm⟩,
      operand.reads (by omega) (others.stops_operand hs), others.reads h hs ?_⟩)
    simp only [List.length_append] at hc ⊢
    omega

end

theorem expressionRule_reads (d : ExprTree .assignment) {room : Nat} (h : d.expr.nesting ≤ room)
    {rest : List Token} (hs : Nonterminal.assignment.Stops rest) :
    (expressionRule room).Reads (d.tokens ++ rest) d.expr [] rest := by
  rw [expressionRule, expression_exprRules]
  exact d.reads h hs

theorem initializer_reads (initializer : Option (Terminal .equal × ExprTree .assignment))
    {room : Nat} (h : ∀ i ∈ initializer, i.2.expr.nesting ≤ room)
    {rest : List Token} (hs : Nonterminal.assignment.Stops rest) :
    (initializerRule room).Reads (initializerTokens initializer ++ rest)
      (initializer.map fun i => i.2.expr) [] rest := by
  cases initializer with
  | none => exact initializerRule_reads.mpr (.inr ⟨fun t ht hk => hs t ht (.inl hk), rfl, rfl, rfl⟩)
  | some i =>
    obtain ⟨equals, e⟩ := i
    exact initializerRule_reads.mpr (.inl ⟨equals.val, e.tokens ++ rest, e.expr, rfl,
      equals.property, expressionRule_reads e (h _ rfl) hs, rfl⟩)

mutual

/-- A declaration is read in any scope, with a report for each name that it declares again. -/
theorem StmtTree.reads : ∀ (d : StmtTree) {room : Nat} {declared : List String}
    {rest : List Token}, d.stmt.nesting ≤ room →
      (declarationRule room (innerBlockRule room) declared).Reads (d.tokens ++ rest) d.stmt
        ((d.stmt.redeclared declared).map redeclaredReport) rest
  | .expression e semicolon, room, declared, rest, h => by
    rw [StmtTree.stmt, Stmt.nesting] at h
    have hs : Nonterminal.assignment.Stops (semicolon.val :: rest) :=
      closer_stops_assignment (.inl semicolon.property)
    have he := expressionRule_reads e h hs
    refine declarationRule_reads.mpr (.inr (.inr (.inr ⟨?_, ?_⟩)))
    · obtain ⟨t, ts, ht, hk⟩ := e.head
      simpa [StmtTree.tokens, ht] using kind_of_opensExpression hk
    · exact expressionStatementRule_reads.mpr ⟨e.expr, semicolon.val,
        by simpa [StmtTree.tokens, StmtTree.stmt, Stmt.redeclared] using he, semicolon.property, rfl⟩
  | .print keyword e semicolon, room, declared, rest, h => by
    rw [StmtTree.stmt, Stmt.nesting] at h
    have hs : Nonterminal.assignment.Stops (semicolon.val :: rest) :=
      closer_stops_assignment (.inl semicolon.property)
    have he := expressionRule_reads e h hs
    refine declarationRule_reads.mpr (.inr (.inl ⟨keyword.val, e.tokens ++ semicolon.val :: rest,
      by simp [StmtTree.tokens], keyword.property, ?_⟩))
    exact printRule_reads.mpr ⟨e.expr, semicolon.val,
      by simpa [StmtTree.stmt, Stmt.redeclared] using he, semicolon.property, rfl⟩
  | .var keyword name initializer semicolon, room, declared, rest, h => by
    have hi : ∀ i ∈ initializer, i.2.expr.nesting ≤ room := by
      rintro i rfl
      simpa [StmtTree.stmt, Stmt.nesting] using h
    have hs : Nonterminal.assignment.Stops (semicolon.val :: rest) :=
      closer_stops_assignment (.inl semicolon.property)
    refine declarationRule_reads.mpr (.inl ⟨keyword.val,
      name.val :: (initializerTokens initializer ++ semicolon.val :: rest),
      by simp [StmtTree.tokens], keyword.property, ?_⟩)
    exact varRule_reads.mpr ⟨name.val, _, _, [], semicolon.val, rfl, name.property,
      initializer_reads initializer hi hs, semicolon.property, rfl, by simp⟩
  | .block left body right, room, declared, rest, h => by
    rw [StmtTree.stmt, Stmt.nesting] at h
    obtain ⟨r, rfl⟩ : ∃ r, room = r + 1 := ⟨room - 1, by omega⟩
    have hb : scopeOf r (innerBlockRule r) (· = .rightBrace)
        (StmtTree.listTokens body ++ right.val :: rest) =
          ⟨StmtTree.listStmts body,
            (Stmt.listRedeclared [] (StmtTree.listStmts body)).map redeclaredReport,
            right.val :: rest⟩ :=
      StmtTree.list_reads body (by omega) (by simp) (by simp [right.property]) (Nat.le_refl _)
    refine declarationRule_reads.mpr (.inr (.inr (.inl ⟨left.val,
      StmtTree.listTokens body ++ right.val :: rest, by simp [StmtTree.tokens], left.property, ?_⟩)))
    refine blockStatementRule_reads.mpr ⟨StmtTree.listStmts body, Rule.reads_nested.mpr
      ⟨blockRule r (innerBlockRule r), rfl, ?_⟩, rfl⟩
    exact blockRule_reads.mpr ⟨right.val, hb, right.property⟩

/-- So are the declarations of a scope, up to where the scope stops. -/
theorem StmtTree.list_reads : ∀ (ds : List StmtTree) {room : Nat} {declared : List String}
    {rest : List Token} {stops : TokenKind → Bool} {count : Nat},
    Stmt.listNesting (StmtTree.listStmts ds) ≤ room → (∀ k, stops k = true → k = .rightBrace) →
      (∀ t ∈ rest.head?, stops t.kind = true) →
      (StmtTree.listTokens ds ++ rest).length ≤ count →
      scopeReading (declarationRule room (innerBlockRule room)) stops count declared
          (StmtTree.listTokens ds ++ rest) =
        ⟨StmtTree.listStmts ds,
          (Stmt.listRedeclared declared (StmtTree.listStmts ds)).map redeclaredReport, rest⟩
  | [], room, declared, rest, stops, count, _, _, hr, _ => by
    cases count with
    | zero => rfl
    | succ count =>
      cases rest with
      | nil => rfl
      | cons t rest =>
        have ht := hr t (by simp)
        simp [StmtTree.listTokens, StmtTree.listStmts, Stmt.listRedeclared, scopeReading, ht]
  | d :: ds, room, declared, rest, stops, count, h, hs, hr, hc => by
    rw [StmtTree.listStmts, Stmt.listNesting] at h
    have hd := recovering_of_reads
      (d.reads (by omega) : (declarationRule room (innerBlockRule room) declared).Reads
        (d.tokens ++ (StmtTree.listTokens ds ++ rest)) _ _ _)
    obtain ⟨t, ts, ht, hk⟩ := d.head
    have hstop : stops t.kind = false := by
      cases hst : stops t.kind with
      | false => rfl
      | true => exact absurd (hs _ hst) hk
    simp only [StmtTree.listTokens, ht, List.append_assoc, List.cons_append, List.length_cons,
      List.length_append] at hc hd ⊢
    obtain ⟨c, rfl⟩ : ∃ c, count = c + 1 := ⟨count - 1, by omega⟩
    have hds : scopeReading (declarationRule room (innerBlockRule room)) stops c
        (d.stmt.declares.toList ++ declared) (StmtTree.listTokens ds ++ rest) = ⟨_, _, _⟩ :=
      StmtTree.list_reads ds (by omega) hs hr (by simp only [List.length_append]; omega)
    simp [scopeReading, hstop, hd, hds, StmtTree.listStmts, Stmt.listRedeclared]

end

end Treewalk
