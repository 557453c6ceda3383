import Treewalk.Proofs.Grammar.Follow
import Treewalk.Proofs.Grammar.StatementReads

/-! What is read without a report is derived: its tokens, in order and complete, are those of a
derivation tree, the result is the expression or the statements that the tree stands for, and the
nesting stays within the room that the rule had. -/

namespace Treewalk

theorem OperandTrees.expr_eq_variable : ∀ {tier : Tier} (d : OperandTrees tier) {left : Expr}
    {name : Token}, d.expr left = .variable name → d = .nil ∧ left = .variable name
  | _, .nil, _, _, h => ⟨rfl, h⟩
  | _, .cons op _ token operand others, left, name, h => by
    have hv := (others.expr_eq_variable h).2
    cases hv

theorem ExprTree.tokens_of_variable : ∀ {n : Nonterminal} (d : ExprTree n) {name : Token},
    d.expr = .variable name → d.tokens = [name] ∧ name.kind = .identifier
  | _, .assign _ _ _, _, h => by cases h
  | _, .equality e, _, h => e.tokens_of_variable h
  | _, .operation first others, _, h => by
    obtain ⟨rfl, hf⟩ := others.expr_eq_variable h
    obtain ⟨ht, hk⟩ := first.tokens_of_variable hf
    exact ⟨by simp [ExprTree.tokens, OperandTrees.tokens, ht], hk⟩
  | _, .unary _ _ _, _, h => by cases h
  | _, .primary e, _, h => e.tokens_of_variable h
  | _, .atom a, _, h => by
    cases a with
    | name t =>
      cases h
      exact ⟨rfl, t.property⟩
    | _ => cases h
  | _, .grouping _ _ _, _, h => by cases h

/-- What the nonterminal's rule reads without a report, with so much room, is derived from it. -/
def Nonterminal.Derives (room : Nat) (n : Nonterminal) : Prop :=
  ∀ {ts rest : List Token} {e : Expr}, (n.rule (innerRules room)).Reads ts e [] rest →
    ∃ d : ExprTree n, d.expr = e ∧ d.tokens ++ rest = ts ∧ e.nesting ≤ room

variable {room : Nat}

theorem primary_derives (ih : ∀ r, room = r + 1 → Nonterminal.assignment.Derives r) :
    Nonterminal.primary.Derives room := by
  intro ts rest e h
  rcases primaryRule_reads.mp h with ⟨t, rfl, ha⟩ | ⟨left, mid, body, right, rfl, hl, hb, hr, rfl⟩
  · obtain ⟨a, rfl, rfl⟩ := exists_atom_of_atom? ha
    exact ⟨.atom a, rfl, rfl, by cases a <;> simp [Atom.expr, Expr.nesting]⟩
  · obtain ⟨r, rfl, hi⟩ := nested_expression_reads.mp hb
    obtain ⟨d, rfl, rfl, hn⟩ := ih r rfl hi
    exact ⟨.grouping ⟨left, hl⟩ d ⟨right, hr⟩, rfl, by simp [ExprTree.tokens],
      by simpa [Expr.nesting] using hn⟩

theorem unary_derives (ih : ∀ r, room = r + 1 → Nonterminal.unary.Derives r)
    (hp : Nonterminal.primary.Derives room) : Nonterminal.unary.Derives room := by
  intro ts rest e h
  rcases unaryRule_reads.mp h with ⟨op, token, mid, operand, rfl, hop, ho, rfl⟩ | ⟨-, h₁⟩
  · obtain ⟨r, rfl, hi⟩ := nested_operand_reads.mp ho
    obtain ⟨d, rfl, rfl, hn⟩ := ih r rfl hi
    exact ⟨.unary op ⟨token, (unaryOp?_eq_some_iff.mp hop).symm⟩ d, rfl, rfl,
      by simpa [Expr.nesting] using hn⟩
  · obtain ⟨d, rfl, rfl, hn⟩ := hp h₁
    exact ⟨.primary d, rfl, rfl, hn⟩

theorem chain_derives {tier : Tier} (ho : tier.operand.Derives room) {count : Nat}
    {left e : Expr} {ts rest : List Token}
    (h : (chainRule tier.op? (tier.operand.rule (innerRules room)) count left).Reads ts e [] rest)
    (hl : left.nesting ≤ room) :
    ∃ d : OperandTrees tier, d.expr left = e ∧ d.tokens ++ rest = ts ∧ e.nesting ≤ room := by
  induction count generalizing left ts with
  | zero =>
    obtain ⟨rfl, -, rfl⟩ := Rule.reads_pure.mp h
    exact ⟨.nil, rfl, rfl, hl⟩
  | succ count ih =>
    rcases chainRule_reads.mp h with
      ⟨op, token, mid, right, after, rfl, hop, hr, hc⟩ | ⟨-, rfl, rfl⟩
    · obtain ⟨htier, hkind⟩ := Tier.op?_eq_some_iff.mp hop
      obtain ⟨d, rfl, rfl, hn⟩ := ho hr
      have hleft : (Expr.binary op token left d.expr).nesting ≤ room := by
        rw [Expr.nesting]
        omega
      obtain ⟨ds, rfl, rfl, hds⟩ := ih hc hleft
      exact ⟨.cons op htier ⟨token, hkind.symm⟩ d ds, rfl, by simp [OperandTrees.tokens], hds⟩
    · exact ⟨.nil, rfl, rfl, hl⟩

theorem operation_derives (tier : Tier) (ho : tier.operand.Derives room) :
    (Nonterminal.operation tier).Derives room := by
  intro ts rest e h
  rw [Nonterminal.rule_operation] at h
  obtain ⟨first, mid, hf, hc⟩ := leftAssociative_reads.mp h
  obtain ⟨d, rfl, rfl, hn⟩ := ho hf
  obtain ⟨ds, rfl, rfl, hds⟩ := chain_derives ho hc hn
  exact ⟨.operation d ds, rfl, by simp [ExprTree.tokens], hds⟩

theorem assignment_derives (ih : ∀ r, room = r + 1 → Nonterminal.assignment.Derives r)
    (he : (Nonterminal.operation .equality).Derives room) :
    Nonterminal.assignment.Derives room := by
  intro ts rest e h
  rcases assignmentRule_reads.mp h with ⟨name, equals, mid, value, ht, hk, hv, rfl⟩ | ⟨h₁, -⟩
  · obtain ⟨target, htarget, rfl, -⟩ := he ht
    obtain ⟨hname, hkind⟩ := target.tokens_of_variable htarget
    obtain ⟨r, rfl, hi⟩ := nested_expression_reads.mp hv
    obtain ⟨d, rfl, rfl, hn⟩ := ih r rfl hi
    exact ⟨.assign ⟨name, hkind⟩ ⟨equals, hk⟩ d, rfl, by simp [ExprTree.tokens, hname],
      by simpa [Expr.nesting] using hn⟩
  · obtain ⟨d, rfl, rfl, hn⟩ := he h₁
    exact ⟨.equality d, rfl, rfl, hn⟩

theorem nonterminals_derive (room : Nat) :
    Nonterminal.unary.Derives room ∧ Nonterminal.assignment.Derives room := by
  induction room using Nat.strongRecOn with
  | ind room ih =>
    have hp : Nonterminal.primary.Derives room := primary_derives fun r hr => (ih r (by omega)).2
    have hu : Nonterminal.unary.Derives room := unary_derives (fun r hr => (ih r (by omega)).1) hp
    have he : (Nonterminal.operation .equality).Derives room :=
      operation_derives .equality (operation_derives .comparison
        (operation_derives .term (operation_derives .factor hu)))
    exact ⟨hu, assignment_derives (fun r hr => (ih r (by omega)).2) he⟩

theorem expressionRule_derives {room : Nat} {ts rest : List Token} {e : Expr}
    (h : (expressionRule room).Reads ts e [] rest) :
    ∃ d : ExprTree .assignment, d.expr = e ∧ d.tokens ++ rest = ts ∧ e.nesting ≤ room := by
  rw [expressionRule, expression_exprRules] at h
  exact (nonterminals_derive room).2 h

theorem initializerRule_derives {room : Nat} {ts rest : List Token} {initializer : Option Expr}
    (h : (initializerRule room).Reads ts initializer [] rest) :
    ∃ i : Option (Terminal .equal × ExprTree .assignment), (i.map fun i => i.2.expr) = initializer ∧
      initializerTokens i ++ rest = ts ∧ ∀ e ∈ initializer, e.nesting ≤ room := by
  rcases initializerRule_reads.mp h with ⟨equals, mid, e, rfl, hk, he, rfl⟩ | ⟨-, rfl, -, rfl⟩
  · obtain ⟨d, rfl, rfl, hn⟩ := expressionRule_derives he
    exact ⟨some (⟨equals, hk⟩, d), rfl, rfl, by simpa using hn⟩
  · exact ⟨none, rfl, rfl, by simp⟩

/-- What a scope reads without a report is derived, and it is read up to where the scope stops. -/
def ScopeDerives (room : Nat) : Prop :=
  ∀ {stops : TokenKind → Bool} {ts rest : List Token} {stmts : List Stmt},
    scopeOf room (innerBlockRule room) stops ts = ⟨stmts, [], rest⟩ →
      ∃ ds : List StmtTree, StmtTree.listStmts ds = stmts ∧ StmtTree.listTokens ds ++ rest = ts ∧
        Stmt.listNesting stmts ≤ room ∧ ∀ t ∈ rest.head?, stops t.kind = true

theorem declaration_derives (ih : ∀ r, room = r + 1 → ScopeDerives r) {declared : List String}
    {ts rest : List Token} {stmt : Stmt}
    (h : (declarationRule room (innerBlockRule room) declared).Reads ts stmt [] rest) :
    ∃ d : StmtTree, d.stmt = stmt ∧ d.tokens ++ rest = ts ∧ stmt.nesting ≤ room := by
  rcases declarationRule_reads.mp h with
    ⟨t, mid, rfl, ht, h₁⟩ | ⟨t, mid, rfl, ht, h₁⟩ | ⟨t, mid, rfl, ht, h₁⟩ | ⟨-, h₁⟩
  · obtain ⟨name, mid, initializer, others, semicolon, rfl, hname, hi, hs, rfl, he⟩ :=
      varRule_reads.mp h₁
    obtain ⟨-, rfl⟩ := List.nil_eq_append_iff.mp he
    obtain ⟨i, rfl, rfl, hn⟩ := initializerRule_derives hi
    refine ⟨.var ⟨t, ht⟩ ⟨name, hname⟩ i ⟨semicolon, hs⟩, rfl, by simp [StmtTree.tokens], ?_⟩
    cases i with
    | none => simp [Stmt.nesting]
    | some i => simpa [Stmt.nesting] using hn
  · obtain ⟨e, semicolon, he, hs, rfl⟩ := printRule_reads.mp h₁
    obtain ⟨d, rfl, rfl, hn⟩ := expressionRule_derives he
    exact ⟨.print ⟨t, ht⟩ d ⟨semicolon, hs⟩, rfl, by simp [StmtTree.tokens],
      by simpa [Stmt.nesting] using hn⟩
  · obtain ⟨body, hb, rfl⟩ := blockStatementRule_reads.mp h₁
    obtain ⟨rule, hrule, hb⟩ := Rule.reads_nested.mp hb
    cases room with
    | zero => cases hrule
    | succ r =>
      cases hrule
      obtain ⟨right, hscope, hr⟩ := blockRule_reads.mp hb
      obtain ⟨ds, rfl, rfl, hn, -⟩ := ih r rfl hscope
      exact ⟨.block ⟨t, ht⟩ ds ⟨right, hr⟩, rfl, by simp [StmtTree.tokens],
        by simpa [Stmt.nesting] using hn⟩
  · obtain ⟨e, semicolon, he, hs, rfl⟩ := expressionStatementRule_reads.mp h₁
    obtain ⟨d, rfl, rfl, hn⟩ := expressionRule_derives he
    exact ⟨.expression d ⟨semicolon, hs⟩, rfl, by simp [StmtTree.tokens],
      by simpa [Stmt.nesting] using hn⟩

theorem scopeReading_derives (ih : ∀ r, room = r + 1 → ScopeDerives r)
    {stops : TokenKind → Bool} {count : Nat} {declared : List String} {ts rest : List Token}
    {stmts : List Stmt} (hc : ts.length ≤ count)
    (h : scopeReading (declarationRule room (innerBlockRule room)) stops count declared ts =
      ⟨stmts, [], rest⟩) :
    ∃ ds : List StmtTree, StmtTree.listStmts ds = stmts ∧ StmtTree.listTokens ds ++ rest = ts ∧
      Stmt.listNesting stmts ≤ room ∧ ∀ t ∈ rest.head?, stops t.kind = true := by
  induction count generalizing declared ts stmts with
  | zero =>
    obtain rfl := List.length_eq_zero_iff.mp (Nat.le_zero.mp hc)
    cases h
    exact ⟨[], rfl, rfl, by simp [Stmt.listNesting], by simp⟩
  | succ count ihc =>
    cases ts with
    | nil =>
      cases h
      exact ⟨[], rfl, rfl, by simp [Stmt.listNesting], by simp⟩
    | cons t ts =>
      rw [scopeReading] at h
      split at h
      · rename_i ht
        cases h
        exact ⟨[], rfl, rfl, by simp [Stmt.listNesting], by simpa using ht⟩
      · obtain ⟨hv, hr, hrest⟩ := Reading.mk.inj h
        obtain ⟨hfirst, hothers⟩ := List.append_eq_nil_iff.mp hr
        obtain ⟨stmt, mid, hreads⟩ := reads_of_recovering hfirst
        obtain ⟨d, rfl, hd, hn⟩ := declaration_derives ih hreads
        rw [recovering_of_reads hreads] at hv hothers hrest
        generalize ho : scopeReading _ stops count _ _ = others at hv hothers hrest
        obtain ⟨value, _, _⟩ := others
        obtain rfl := hothers
        obtain rfl := hrest
        have hlen : mid.length ≤ count := by
          obtain ⟨u, us, hu, -⟩ := d.head
          have hl := congrArg List.length hd
          simp only [hu, List.cons_append, List.length_cons, List.length_append] at hl hc
          omega
        obtain ⟨ds, rfl, rfl, hns, hstop⟩ := ihc hlen ho
        refine ⟨d :: ds, hv, by simpa [StmtTree.listTokens] using hd, ?_, hstop⟩
        rw [← hv]
        exact Nat.max_le.mpr ⟨hn, hns⟩

theorem scope_derives (room : Nat) : ScopeDerives room := by
  induction room using Nat.strongRecOn with
  | ind room ih =>
    intro stops ts rest stmts h
    exact scopeReading_derives (fun r hr => ih r (by omega)) (Nat.le_refl _) h

end Treewalk
