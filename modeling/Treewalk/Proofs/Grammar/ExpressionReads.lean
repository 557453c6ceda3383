import Treewalk.Grammar.Expression
import Treewalk.Proofs.Grammar.Derivation
import Treewalk.Proofs.Grammar.Reads

/-! What the rules for expressions read without a report, and the rule of each nonterminal. -/

namespace Treewalk

variable {ts rest : List Token} {reports : List SyntaxReport} {inner : Option ExprRules} {e : Expr}

theorem primaryRule_reads :
    (primaryRule inner).Reads ts e [] rest ↔
      (∃ t, ts = t :: rest ∧ atom? t = some e) ∨
      ∃ left mid body right, ts = left :: mid ∧ left.kind = .leftParen ∧
        (Rule.nested left (inner.map ExprRules.expression)).Reads mid body [] (right :: rest) ∧
        right.kind = .rightParen ∧ e = .grouping body := by
  constructor
  · intro h
    cases ts with
    | nil => exact absurd h Rule.not_reads_fail
    | cons t ts =>
      unfold Rule.Reads primaryRule at h
      dsimp only at h
      split at h
      · rename_i ha
        cases h
        exact .inl ⟨t, rfl, ha⟩
      · split at h
        · rename_i hk
          obtain ⟨body, mid, hb, h₁⟩ := Rule.reads_bind_nil.mp h
          obtain ⟨right, last, hr, h₂⟩ := Rule.reads_bind_nil.mp h₁
          obtain ⟨rfl, hright, -⟩ := Rule.reads_expect.mp hr
          obtain ⟨rfl, -, rfl⟩ := Rule.reads_pure.mp h₂
          exact .inr ⟨t, ts, body, right, rfl, hk, hb, hright, rfl⟩
        · exact absurd h Rule.not_reads_fail
  · rintro (⟨t, rfl, ha⟩ | ⟨left, mid, body, right, rfl, hk, hb, hright, rfl⟩)
    · simp [Rule.Reads, primaryRule, ha]
    · have ha : atom? left = none := by simp [atom?, hk]
      have hg : (groupingRule inner left).Reads mid (.grouping body) [] rest :=
        Rule.reads_bind_nil.mpr ⟨body, right :: rest, hb, Rule.reads_bind_nil.mpr
          ⟨right, rest, Rule.reads_expect.mpr ⟨rfl, hright, rfl⟩, rfl⟩⟩
      simpa only [Rule.Reads, primaryRule, ha, hk, if_true] using hg

theorem unaryRule_reads :
    (unaryRule inner).Reads ts e [] rest ↔
      (∃ op token mid operand, ts = token :: mid ∧ unaryOp? token.kind = some op ∧
        (Rule.nested token (inner.map ExprRules.operand)).Reads mid operand [] rest ∧
        e = .unary op token operand) ∨
      ((∀ t ∈ ts.head?, unaryOp? t.kind = none) ∧ (primaryRule inner).Reads ts e [] rest) := by
  unfold unaryRule
  rw [Rule.reads_bind_nil]
  constructor
  · rintro ⟨result, mid, ha, h⟩
    cases result with
    | none =>
      obtain ⟨hn, -, rfl⟩ := Rule.reads_accept_none.mp ha
      exact .inr ⟨hn, h⟩
    | some found =>
      obtain ⟨op, token⟩ := found
      obtain ⟨rfl, hop, -⟩ := Rule.reads_accept_some.mp ha
      obtain ⟨operand, after, ho, h₁⟩ := Rule.reads_bind_nil.mp h
      obtain ⟨rfl, -, rfl⟩ := Rule.reads_pure.mp h₁
      exact .inl ⟨op, token, mid, operand, rfl, hop, ho, rfl⟩
  · rintro (⟨op, token, mid, operand, rfl, hop, ho, rfl⟩ | ⟨hn, h⟩)
    · exact ⟨some (op, token), mid, Rule.reads_accept_some.mpr ⟨rfl, hop, rfl⟩,
        Rule.reads_bind_nil.mpr ⟨operand, rest, ho, rfl⟩⟩
    · exact ⟨none, ts, Rule.reads_accept_none.mpr ⟨hn, rfl, rfl⟩, h⟩

theorem chainRule_reads {op? : TokenKind → Option BinaryOp} {operand : Rule Expr} {count : Nat}
    {left : Expr} :
    (chainRule op? operand (count + 1) left).Reads ts e [] rest ↔
      (∃ op token mid right after, ts = token :: mid ∧ op? token.kind = some op ∧
        operand.Reads mid right [] after ∧
        (chainRule op? operand count (.binary op token left right)).Reads after e [] rest) ∨
      ((∀ t ∈ ts.head?, op? t.kind = none) ∧ left = e ∧ ts = rest) := by
  rw [chainRule, Rule.reads_bind_nil]
  constructor
  · rintro ⟨result, mid, ha, h⟩
    cases result with
    | none =>
      obtain ⟨hn, -, rfl⟩ := Rule.reads_accept_none.mp ha
      obtain ⟨he, -, hr⟩ := Rule.reads_pure.mp h
      exact .inr ⟨hn, he, hr⟩
    | some found =>
      obtain ⟨op, token⟩ := found
      obtain ⟨rfl, hop, -⟩ := Rule.reads_accept_some.mp ha
      obtain ⟨right, after, ho, h₁⟩ := Rule.reads_bind_nil.mp h
      exact .inl ⟨op, token, mid, right, after, rfl, hop, ho, h₁⟩
  · rintro (⟨op, token, mid, right, after, rfl, hop, ho, h⟩ | ⟨hn, rfl, rfl⟩)
    · exact ⟨some (op, token), mid, Rule.reads_accept_some.mpr ⟨rfl, hop, rfl⟩,
        Rule.reads_bind_nil.mpr ⟨right, after, ho, h⟩⟩
    · exact ⟨none, ts, Rule.reads_accept_none.mpr ⟨hn, rfl, rfl⟩, rfl⟩

theorem leftAssociative_reads {op? : TokenKind → Option BinaryOp} {operand : Rule Expr} :
    (leftAssociative op? operand).Reads ts e [] rest ↔
      ∃ first mid, operand.Reads ts first [] mid ∧
        (chainRule op? operand mid.length first).Reads mid e [] rest :=
  Rule.reads_bind_nil

theorem assignRule_reads {left : Expr} {equals : Token} {value : Expr} :
    (assignRule left equals value).Reads ts e [] rest ↔
      ∃ name, left = .variable name ∧ e = .assign name value ∧ ts = rest := by
  cases left with
  | «variable» name =>
    constructor
    · intro h
      obtain ⟨rfl, -, rfl⟩ := Rule.reads_pure.mp h
      exact ⟨name, rfl, rfl, rfl⟩
    · rintro ⟨_, h, rfl, rfl⟩
      cases h
      rfl
  | _ =>
    -- The report on the target stands in the way of reading without reports.
    constructor
    · intro h
      obtain ⟨_, _, hr, _⟩ := Rule.reads_bind_nil.mp h
      cases hr
    · rintro ⟨_, h, _⟩
      cases h

theorem assignmentRule_reads :
    (assignmentRule inner).Reads ts e [] rest ↔
      (∃ name equals mid value, (equalityRule inner).Reads ts (.variable name) [] (equals :: mid) ∧
        equals.kind = .equal ∧
        (Rule.nested equals (inner.map ExprRules.expression)).Reads mid value [] rest ∧
        e = .assign name value) ∨
      ((equalityRule inner).Reads ts e [] rest ∧ ∀ t ∈ rest.head?, t.kind ≠ .equal) := by
  unfold assignmentRule
  rw [Rule.reads_bind_nil]
  constructor
  · rintro ⟨left, mid, hl, h⟩
    obtain ⟨result, after, ha, h₁⟩ := Rule.reads_bind_nil.mp h
    cases result with
    | none =>
      obtain ⟨hn, -, rfl⟩ := Rule.reads_accept_none.mp ha
      obtain ⟨rfl, -, rfl⟩ := Rule.reads_pure.mp h₁
      exact .inr ⟨hl, fun t ht => only_eq_none_iff.mp (hn t ht)⟩
    | some found =>
      obtain ⟨u, equals⟩ := found
      obtain ⟨rfl, hk, -⟩ := Rule.reads_accept_some.mp ha
      obtain ⟨value, last, hv, h₂⟩ := Rule.reads_bind_nil.mp h₁
      obtain ⟨name, rfl, rfl, rfl⟩ := assignRule_reads.mp h₂
      exact .inl ⟨name, equals, after, value, hl, only_eq_some_iff.mp hk, hv, rfl⟩
  · rintro (⟨name, equals, mid, value, hl, hk, hv, rfl⟩ | ⟨hl, hn⟩)
    · exact ⟨.variable name, equals :: mid, hl, Rule.reads_bind_nil.mpr
        ⟨some ((), equals), mid, Rule.reads_accept_some.mpr ⟨rfl, only_eq_some_iff.mpr hk, rfl⟩,
          Rule.reads_bind_nil.mpr ⟨value, rest, hv, rfl⟩⟩⟩
    · exact ⟨e, rest, hl, Rule.reads_bind_nil.mpr
        ⟨none, rest, Rule.reads_accept_none.mpr
          ⟨fun t ht => only_eq_none_iff.mpr (hn t ht), rfl, rfl⟩, rfl⟩⟩

def Tier.op? : Tier → TokenKind → Option BinaryOp
  | .equality => equalityOp?
  | .comparison => comparisonOp?
  | .term => termOp?
  | .factor => factorOp?

/-- The rules for what is nested in expressions that have so much room. -/
def innerRules : Nat → Option ExprRules
  | 0 => none
  | room + 1 => some (exprRules room)

def Nonterminal.rule (inner : Option ExprRules) : Nonterminal → Rule Expr
  | .assignment => assignmentRule inner
  | .operation .equality => equalityRule inner
  | .operation .comparison => comparisonRule inner
  | .operation .term => termRule inner
  | .operation .factor => factorRule inner
  | .unary => unaryRule inner
  | .primary => primaryRule inner

theorem Nonterminal.rule_operation (inner : Option ExprRules) (tier : Tier) :
    (Nonterminal.operation tier).rule inner =
      leftAssociative tier.op? (tier.operand.rule inner) := by
  cases tier <;> rfl

theorem exprRules_eq_above (room : Nat) : exprRules room = .above (innerRules room) := by
  cases room <;> rfl

theorem operand_exprRules (room : Nat) :
    (exprRules room).operand = Nonterminal.unary.rule (innerRules room) := by
  rw [exprRules_eq_above]
  rfl

theorem expression_exprRules (room : Nat) :
    (exprRules room).expression = Nonterminal.assignment.rule (innerRules room) := by
  rw [exprRules_eq_above]
  rfl

theorem Tier.op?_eq_some_iff {tier : Tier} {k : TokenKind} {op : BinaryOp} :
    tier.op? k = some op ↔ op.tier = tier ∧ op.kind = k := by
  constructor
  · intro h
    cases tier <;> simp only [Tier.op?, equalityOp?, comparisonOp?, termOp?, factorOp?] at h <;>
      split at h <;> cases h <;> exact ⟨rfl, rfl⟩
  · rintro ⟨rfl, rfl⟩
    cases op <;> rfl

theorem unaryOp?_eq_some_iff {k : TokenKind} {op : UnaryOp} :
    unaryOp? k = some op ↔ op.kind = k := by
  constructor
  · intro h
    unfold unaryOp? at h
    split at h <;> cases h <;> rfl
  · rintro rfl
    cases op <;> rfl

theorem Atom.atom?_token (a : Atom) : atom? a.token = some a.expr := by
  cases a <;> rename_i t <;> simp [atom?, Atom.token, Atom.expr, t.property]

theorem exists_atom_of_atom? {t : Token} {e : Expr} (h : atom? t = some e) :
    ∃ a : Atom, a.token = t ∧ a.expr = e := by
  unfold atom? at h
  split at h <;> rename_i hk <;> cases h
  · exact ⟨.false ⟨t, hk⟩, rfl, rfl⟩
  · exact ⟨.true ⟨t, hk⟩, rfl, rfl⟩
  · exact ⟨.nil ⟨t, hk⟩, rfl, rfl⟩
  · exact ⟨.number ⟨t, hk⟩, rfl, rfl⟩
  · exact ⟨.string ⟨t, hk⟩, rfl, rfl⟩
  · exact ⟨.name ⟨t, hk⟩, rfl, rfl⟩

theorem nested_operand_reads {room : Nat} {opener : Token} {e : Expr} :
    (Rule.nested opener ((innerRules room).map ExprRules.operand)).Reads ts e reports rest ↔
      ∃ r, room = r + 1 ∧ (Nonterminal.unary.rule (innerRules r)).Reads ts e reports rest := by
  rw [Rule.reads_nested]
  cases room with
  | zero => simp [innerRules]
  | succ r => simp [innerRules, operand_exprRules]

theorem nested_expression_reads {room : Nat} {opener : Token} {e : Expr} :
    (Rule.nested opener ((innerRules room).map ExprRules.expression)).Reads ts e reports rest ↔
      ∃ r, room = r + 1 ∧ (Nonterminal.assignment.rule (innerRules r)).Reads ts e reports rest := by
  rw [Rule.reads_nested]
  cases room with
  | zero => simp [innerRules]
  | succ r => simp [innerRules, expression_exprRules]

end Treewalk
