import Treewalk.Proofs.Grammar.Follow

/-! The kinds of tokens that expressions are made of. None of them ends a statement, starts one or
opens or closes a block. -/

namespace Treewalk

def TokenKind.inExpression : TokenKind → Bool
  | .equal | .rightParen => Bool.true
  | .equalEqual | .bangEqual | .greater | .greaterEqual | .less | .lessEqual => Bool.true
  | .plus | .slash | .star => Bool.true
  | k => k.opensExpression

theorem inExpression_of_opensPrimary {k : TokenKind} (h : k.opensPrimary = true) :
    k.inExpression = true := by
  cases k <;> first | rfl | cases h

theorem UnaryOp.inExpression_kind (op : UnaryOp) : op.kind.inExpression = true := by
  cases op <;> rfl

theorem BinaryOp.inExpression_kind (op : BinaryOp) : op.kind.inExpression = true := by
  cases op <;> rfl

theorem kind_of_inExpression {k : TokenKind} (h : k.inExpression = true) :
    k ≠ .semicolon ∧ k ≠ .eof ∧ k.startsStatement = false := by
  refine ⟨?_, ?_, ?_⟩
  · rintro rfl
    cases h
  · rintro rfl
    cases h
  · cases k <;> first | rfl | cases h

mutual

theorem ExprTree.inExpression : ∀ {n : Nonterminal} (d : ExprTree n),
    ∀ t ∈ d.tokens, t.kind.inExpression = true
  | _, .assign name equals value => by
    have hname : name.val.kind.inExpression = true := by rw [name.property]; rfl
    have hequals : equals.val.kind.inExpression = true := by rw [equals.property]; rfl
    simpa [ExprTree.tokens, hname, hequals] using value.inExpression
  | _, .equality e => e.inExpression
  | _, .operation first others => by
    simpa [ExprTree.tokens, or_imp, forall_and] using ⟨first.inExpression, others.inExpression⟩
  | _, .unary op token operand => by
    have ht : token.val.kind.inExpression = true := by
      rw [token.property]
      exact op.inExpression_kind
    simpa [ExprTree.tokens, ht] using operand.inExpression
  | _, .primary e => e.inExpression
  | _, .atom a => by
    simpa [ExprTree.tokens] using inExpression_of_opensPrimary (opensPrimary_atom a)
  | _, .grouping left inner right => by
    have hleft : left.val.kind.inExpression = true := by rw [left.property]; rfl
    have hright : right.val.kind.inExpression = true := by rw [right.property]; rfl
    simpa [ExprTree.tokens, hleft, hright, or_imp, forall_and] using inner.inExpression

theorem OperandTrees.inExpression : ∀ {tier : Tier} (d : OperandTrees tier),
    ∀ t ∈ d.tokens, t.kind.inExpression = true
  | _, .nil => by simp [OperandTrees.tokens]
  | _, .cons op _ token operand others => by
    have ht : token.val.kind.inExpression = true := by
      rw [token.property]
      exact op.inExpression_kind
    simpa [OperandTrees.tokens, ht, or_imp, forall_and] using
      ⟨operand.inExpression, others.inExpression⟩

end

theorem ExprTree.kind_ne_eof {n : Nonterminal} (d : ExprTree n) : ∀ t ∈ d.tokens, t.kind ≠ .eof :=
  fun t ht => (kind_of_inExpression (d.inExpression t ht)).2.1

end Treewalk
