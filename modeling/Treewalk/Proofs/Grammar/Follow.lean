import Treewalk.Proofs.Grammar.ExpressionReads

/-! The tokens that a derived phrase can begin with, and those that can carry it on. A phrase ends
where the next token cannot carry it on, which is what decides how far a rule reads. -/

namespace Treewalk

def TokenKind.opensPrimary : TokenKind → Bool
  | .number | .string | .true | .false | .nil | .identifier | .leftParen => Bool.true
  | _ => Bool.false

def TokenKind.opensExpression : TokenKind → Bool
  | .bang | .minus => Bool.true
  | k => k.opensPrimary

theorem opensExpression_of_opensPrimary {k : TokenKind} (h : k.opensPrimary = true) :
    k.opensExpression = true := by
  cases k <;> first | rfl | cases h

theorem kind_of_opensExpression {k : TokenKind} (h : k.opensExpression = true) :
    k ≠ .var ∧ k ≠ .print ∧ k ≠ .leftBrace := by
  refine ⟨?_, ?_, ?_⟩ <;> rintro rfl <;> cases h

theorem unaryOp?_eq_none_of_opensPrimary {k : TokenKind} (h : k.opensPrimary = true) :
    unaryOp? k = none := by
  cases k <;> first | rfl | cases h

theorem opensPrimary_atom (a : Atom) : a.token.kind.opensPrimary = true := by
  cases a <;> rename_i t <;> simp [Atom.token, t.property, TokenKind.opensPrimary]

theorem ExprTree.primary_head (d : ExprTree .primary) :
    ∃ t ts, d.tokens = t :: ts ∧ t.kind.opensPrimary = true := by
  cases d with
  | atom a => exact ⟨a.token, [], rfl, opensPrimary_atom a⟩
  | grouping left inner right =>
    exact ⟨left.val, inner.tokens ++ [right.val], rfl, by rw [left.property]; rfl⟩

theorem ExprTree.head : ∀ {n : Nonterminal} (d : ExprTree n),
    ∃ t ts, d.tokens = t :: ts ∧ t.kind.opensExpression = true
  | _, .assign name equals value =>
    ⟨name.val, equals.val :: value.tokens, rfl, by rw [name.property]; rfl⟩
  | _, .equality e => e.head
  | _, .operation first others => by
    obtain ⟨t, ts, ht, hk⟩ := first.head
    exact ⟨t, ts ++ others.tokens, by simp [ExprTree.tokens, ht], hk⟩
  | _, .unary op token operand =>
    ⟨token.val, operand.tokens, rfl, by rw [token.property]; cases op <;> rfl⟩
  | _, .primary e => by
    obtain ⟨t, ts, ht, hk⟩ := e.primary_head
    exact ⟨t, ts, ht, opensExpression_of_opensPrimary hk⟩
  | _, .atom a => ⟨a.token, [], rfl, opensExpression_of_opensPrimary (opensPrimary_atom a)⟩
  | _, .grouping left inner right =>
    ⟨left.val, inner.tokens ++ [right.val], rfl, by rw [left.property]; rfl⟩

theorem StmtTree.head (d : StmtTree) :
    ∃ t ts, d.tokens = t :: ts ∧ t.kind ≠ .rightBrace := by
  cases d with
  | expression e semicolon =>
    obtain ⟨t, ts, ht, hk⟩ := e.head
    refine ⟨t, ts ++ [semicolon.val], by simp [StmtTree.tokens, ht], ?_⟩
    intro he
    rw [he] at hk
    cases hk
  | print keyword e semicolon =>
    exact ⟨keyword.val, _, by rw [StmtTree.tokens], by simp [keyword.property]⟩
  | var keyword name initializer semicolon =>
    exact ⟨keyword.val, _, by rw [StmtTree.tokens], by simp [keyword.property]⟩
  | block left body right =>
    exact ⟨left.val, _, by rw [StmtTree.tokens], by simp [left.property]⟩

theorem BinaryOp.kind_injective {a b : BinaryOp} (h : a.kind = b.kind) : a = b := by
  cases a <;> cases b <;> first | rfl | cases h

def Tier.rank : Tier → Nat
  | .equality => 0
  | .comparison => 1
  | .term => 2
  | .factor => 3

/-- A token of this kind behind a phrase of the nonterminal carries the phrase on. -/
def Nonterminal.Continues : Nonterminal → TokenKind → Prop
  | .assignment, k => k = .equal ∨ ∃ op : BinaryOp, op.kind = k
  | .operation tier, k => ∃ op : BinaryOp, op.kind = k ∧ tier.rank ≤ op.tier.rank
  | .unary, _ => False
  | .primary, _ => False

def Nonterminal.Stops (n : Nonterminal) (ts : List Token) : Prop :=
  ∀ t ∈ ts.head?, ¬ n.Continues t.kind

variable {tier : Tier} {ts : List Token}

theorem Nonterminal.stops_cons {n : Nonterminal} {t : Token} :
    n.Stops (t :: ts) ↔ ¬ n.Continues t.kind := by
  simp [Nonterminal.Stops]

theorem continues_of_operand {k : TokenKind} (h : tier.operand.Continues k) :
    (Nonterminal.operation tier).Continues k := by
  cases tier with
  | factor => cases h
  | equality | comparison | term =>
    obtain ⟨op, hk, hr⟩ := h
    exact ⟨op, hk, Nat.le_trans (by decide) hr⟩

theorem stops_operand (h : (Nonterminal.operation tier).Stops ts) : tier.operand.Stops ts :=
  fun t ht hc => h t ht (continues_of_operand hc)

theorem not_operand_continues_operator (op : BinaryOp) : ¬ op.tier.operand.Continues op.kind := by
  intro h
  cases ht : op.tier with
  | factor =>
    rw [ht] at h
    cases h
  | equality | comparison | term =>
    rw [ht] at h
    obtain ⟨other, hk, hr⟩ := h
    rw [BinaryOp.kind_injective hk, ht] at hr
    exact absurd hr (by decide)

theorem operator_stops_operand {op : BinaryOp} (h : op.tier = tier) (token : Terminal op.kind) :
    tier.operand.Stops (token.val :: ts) := by
  rw [Nonterminal.stops_cons, token.property, ← h]
  exact not_operand_continues_operator op

theorem OperandTrees.stops_operand {rest : List Token} (others : OperandTrees tier)
    (h : (Nonterminal.operation tier).Stops rest) :
    tier.operand.Stops (others.tokens ++ rest) := by
  cases others with
  | nil => exact Treewalk.stops_operand h
  | cons op tier_eq token operand others => exact operator_stops_operand tier_eq token

theorem op?_eq_none_of_stops (h : (Nonterminal.operation tier).Stops ts) :
    ∀ t ∈ ts.head?, tier.op? t.kind = none := by
  intro t ht
  cases ho : tier.op? t.kind with
  | none => rfl
  | some op =>
    obtain ⟨hop, hk⟩ := Tier.op?_eq_some_iff.mp ho
    exact absurd ⟨op, hk, Nat.le_of_eq (by rw [hop])⟩ (h t ht)

theorem stops_equality (h : Nonterminal.assignment.Stops ts) :
    (Nonterminal.operation .equality).Stops ts := by
  rintro t ht ⟨op, hk, -⟩
  exact h t ht (.inr ⟨op, hk⟩)

theorem equal_stops_equality (equals : Terminal .equal) (ts : List Token) :
    (Nonterminal.operation .equality).Stops (equals.val :: ts) := by
  rw [Nonterminal.stops_cons, equals.property]
  rintro ⟨op, hk, -⟩
  cases op <;> cases hk

theorem closer_stops_assignment {t : Token} (h : t.kind = .semicolon ∨ t.kind = .rightParen) :
    Nonterminal.assignment.Stops (t :: ts) := by
  rw [Nonterminal.stops_cons]
  rintro (hk | ⟨op, hk⟩) <;> rcases h with h | h
  · simp [hk] at h
  · simp [hk] at h
  · cases op <;> simp [← hk, BinaryOp.kind] at h
  · cases op <;> simp [← hk, BinaryOp.kind] at h

end Treewalk
