import Treewalk.Proofs.Grammar.Height
import Treewalk.Proofs.Grammar.Recovery

/-! The nesting limit. Groupings, unary operators, assigned expressions and blocks open levels, and the
tokens that open them stand in the text in a certain order. What is derived beyond the limit is read up
to the first token that opens one level too many, and that token is where the error is. -/

namespace Treewalk

/-- A token with the level that it opens, if it opens one. -/
abbrev Marked := Token × Option Nat

mutual

/-- The tokens of a phrase that lies so many levels deep. -/
def ExprTree.levels (depth : Nat) {n : Nonterminal} : ExprTree n → List Marked
  | .assign name equals value =>
    (name.val, none) :: (equals.val, some (depth + 1)) :: value.levels (depth + 1)
  | .equality e => e.levels depth
  | .operation first others => first.levels depth ++ others.levels depth
  | .unary _ token operand => (token.val, some (depth + 1)) :: operand.levels (depth + 1)
  | .primary e => e.levels depth
  | .atom a => [(a.token, none)]
  | .grouping left inner right =>
    (left.val, some (depth + 1)) :: (inner.levels (depth + 1) ++ [(right.val, none)])

def OperandTrees.levels (depth : Nat) {tier : Tier} : OperandTrees tier → List Marked
  | .nil => []
  | .cons _ _ token operand others =>
    (token.val, none) :: (operand.levels depth ++ others.levels depth)

end

def initializerLevels (depth : Nat) :
    Option (Terminal .equal × ExprTree .assignment) → List Marked
  | none => []
  | some (equals, e) => (equals.val, none) :: e.levels depth

mutual

def StmtTree.levels (depth : Nat) : StmtTree → List Marked
  | .expression e semicolon => e.levels depth ++ [(semicolon.val, none)]
  | .print keyword e semicolon => (keyword.val, none) :: (e.levels depth ++ [(semicolon.val, none)])
  | .var keyword name initializer semicolon =>
    (keyword.val, none) :: (name.val, none) ::
      (initializerLevels depth initializer ++ [(semicolon.val, none)])
  | .block left body right =>
    (left.val, some (depth + 1)) :: (StmtTree.listLevels (depth + 1) body ++ [(right.val, none)])

def StmtTree.listLevels (depth : Nat) : List StmtTree → List Marked
  | [] => []
  | d :: ds => d.levels depth ++ StmtTree.listLevels depth ds

end

section Order

mutual

theorem ExprTree.map_fst_levels : ∀ {n : Nonterminal} (d : ExprTree n) (depth : Nat),
    (d.levels depth).map Prod.fst = d.tokens
  | _, .assign name equals value, depth => by
    simp [ExprTree.levels, ExprTree.tokens, value.map_fst_levels]
  | _, .equality e, depth => e.map_fst_levels depth
  | _, .operation first others, depth => by
    simp [ExprTree.levels, ExprTree.tokens, first.map_fst_levels, others.map_fst_levels]
  | _, .unary _ token operand, depth => by
    simp [ExprTree.levels, ExprTree.tokens, operand.map_fst_levels]
  | _, .primary e, depth => e.map_fst_levels depth
  | _, .atom a, depth => rfl
  | _, .grouping left inner right, depth => by
    simp [ExprTree.levels, ExprTree.tokens, inner.map_fst_levels]

theorem OperandTrees.map_fst_levels : ∀ {tier : Tier} (d : OperandTrees tier) (depth : Nat),
    (d.levels depth).map Prod.fst = d.tokens
  | _, .nil, depth => rfl
  | _, .cons _ _ token operand others, depth => by
    simp [OperandTrees.levels, OperandTrees.tokens, operand.map_fst_levels, others.map_fst_levels]

end

theorem map_fst_initializerLevels (initializer : Option (Terminal .equal × ExprTree .assignment))
    (depth : Nat) :
    (initializerLevels depth initializer).map Prod.fst = initializerTokens initializer := by
  cases initializer with
  | none => rfl
  | some i => simp [initializerLevels, initializerTokens, i.2.map_fst_levels]

mutual

theorem StmtTree.map_fst_levels : ∀ (d : StmtTree) (depth : Nat),
    (d.levels depth).map Prod.fst = d.tokens
  | .expression e semicolon, depth => by
    simp [StmtTree.levels, StmtTree.tokens, e.map_fst_levels]
  | .print keyword e semicolon, depth => by
    simp [StmtTree.levels, StmtTree.tokens, e.map_fst_levels]
  | .var keyword name initializer semicolon, depth => by
    simp [StmtTree.levels, StmtTree.tokens, map_fst_initializerLevels]
  | .block left body right, depth => by
    simp [StmtTree.levels, StmtTree.tokens, StmtTree.map_fst_listLevels body]

theorem StmtTree.map_fst_listLevels : ∀ (ds : List StmtTree) (depth : Nat),
    (StmtTree.listLevels depth ds).map Prod.fst = StmtTree.listTokens ds
  | [], depth => rfl
  | d :: ds, depth => by
    simp [StmtTree.listLevels, StmtTree.listTokens, d.map_fst_levels,
      StmtTree.map_fst_listLevels ds]

end

end Order

section Openers

variable {level : Nat}

/-- The first token that opens the level. -/
def firstOpener (level : Nat) (marked : List Marked) : Option Token :=
  (marked.find? (·.2 = some level)).map Prod.fst

@[simp]
theorem firstOpener_nil : firstOpener level [] = none := rfl

@[simp]
theorem firstOpener_cons_none (t : Token) (xs : List Marked) :
    firstOpener level ((t, none) :: xs) = firstOpener level xs := by
  simp [firstOpener]

theorem firstOpener_cons_self (t : Token) (xs : List Marked) :
    firstOpener level ((t, some level) :: xs) = some t := by
  simp [firstOpener]

theorem firstOpener_cons_of_ne {k : Nat} (h : k ≠ level) (t : Token) (xs : List Marked) :
    firstOpener level ((t, some k) :: xs) = firstOpener level xs := by
  simp [firstOpener, h]

@[simp]
theorem firstOpener_append (xs ys : List Marked) :
    firstOpener level (xs ++ ys) = (firstOpener level xs).or (firstOpener level ys) := by
  rw [firstOpener, List.find?_append]
  cases hx : xs.find? (·.2 = some level) <;> simp [firstOpener, hx]

mutual

/-- A phrase opens no level that is deeper than it nests. -/
theorem ExprTree.firstOpener_eq_none : ∀ {n : Nonterminal} (d : ExprTree n) (depth : Nat),
    depth + d.expr.nesting < level → firstOpener level (d.levels depth) = none
  | _, .assign name equals value, depth, h => by
    rw [ExprTree.expr, Expr.nesting] at h
    have hv := value.firstOpener_eq_none (depth + 1) (by omega)
    rw [ExprTree.levels, firstOpener_cons_none, firstOpener_cons_of_ne (by omega), hv]
  | _, .equality e, depth, h => e.firstOpener_eq_none depth h
  | _, .operation first others, depth, h => by
    rw [ExprTree.expr] at h
    have hle := others.nesting_le_expr first.expr
    rw [ExprTree.levels, firstOpener_append, first.firstOpener_eq_none depth (by omega),
      others.firstOpener_eq_none depth h, Option.or_none]
  | _, .unary op token operand, depth, h => by
    rw [ExprTree.expr, Expr.nesting] at h
    have ho := operand.firstOpener_eq_none (depth + 1) (by omega)
    rw [ExprTree.levels, firstOpener_cons_of_ne (by omega), ho]
  | _, .primary e, depth, h => e.firstOpener_eq_none depth h
  | _, .atom a, depth, h => firstOpener_cons_none a.token []
  | _, .grouping left inner right, depth, h => by
    rw [ExprTree.expr, Expr.nesting] at h
    have hi := inner.firstOpener_eq_none (depth + 1) (by omega)
    rw [ExprTree.levels, firstOpener_cons_of_ne (by omega)]
    simp [hi]

theorem OperandTrees.firstOpener_eq_none : ∀ {tier : Tier} (d : OperandTrees tier) (depth : Nat)
    {left : Expr}, depth + (d.expr left).nesting < level → firstOpener level (d.levels depth) = none
  | _, .nil, depth, left, h => rfl
  | _, .cons op _ token operand others, depth, left, h => by
    rw [OperandTrees.expr] at h
    have hle := others.nesting_le_expr (.binary op token.val left operand.expr)
    rw [Expr.nesting] at hle
    rw [OperandTrees.levels, firstOpener_cons_none, firstOpener_append,
      operand.firstOpener_eq_none depth (by omega), others.firstOpener_eq_none depth h,
      Option.or_none]

end

end Openers

section Expressions

variable {α β : Type} {level depth room : Nat} {xs ys : List Marked} {ts : List Token}

/-- The rule is stopped, without a report before, by the first of the tokens that opens the level. -/
def Rule.FailsAt (rule : Rule α) (level : Nat) (marked : List Marked) (ts : List Token) : Prop :=
  ∃ opener after, firstOpener level marked = some opener ∧
    rule.Fails ts ⟨.tooMuchNesting, some opener⟩ [] after

theorem Rule.FailsAt.bind {rule : Rule α} (h : rule.FailsAt level xs ts) (next : α → Rule β) :
    (rule >>= next).FailsAt level xs ts := by
  obtain ⟨opener, after, hopener, hfails⟩ := h
  exact ⟨opener, after, hopener, Rule.fails_bind hfails⟩

theorem Rule.FailsAt.bind_of_reads {rule : Rule α} {next : α → Rule β} {a : α} {mid : List Token}
    (hr : rule.Reads ts a [] mid) (h : (next a).FailsAt level xs mid) :
    (rule >>= next).FailsAt level xs ts := by
  obtain ⟨opener, after, hopener, hfails⟩ := h
  exact ⟨opener, after, hopener, Rule.fails_bind_of_reads hr hfails⟩

theorem Rule.FailsAt.append {rule : Rule α} (h : rule.FailsAt level xs ts) (ys : List Marked) :
    rule.FailsAt level (xs ++ ys) ts := by
  obtain ⟨opener, after, hopener, hfails⟩ := h
  exact ⟨opener, after, by rw [firstOpener_append, hopener, Option.some_or], hfails⟩

theorem Rule.FailsAt.cons_none {rule : Rule α} (h : rule.FailsAt level xs ts) (t : Token) :
    rule.FailsAt level ((t, none) :: xs) ts := by
  obtain ⟨opener, after, hopener, hfails⟩ := h
  exact ⟨opener, after, by rw [firstOpener_cons_none, hopener], hfails⟩

theorem Rule.FailsAt.prepend {rule : Rule α} (h : rule.FailsAt level xs ts)
    (hys : firstOpener level ys = none) : rule.FailsAt level (ys ++ xs) ts := by
  obtain ⟨opener, after, hopener, hfails⟩ := h
  exact ⟨opener, after, by rw [firstOpener_append, hys, hopener, Option.none_or], hfails⟩

/-- Without room for the level that it opens, a construct is stopped at its opener, and otherwise
inside. -/
theorem Rule.nested_failsAt {inner : Option (Rule α)} (hlevel : level = depth + room + 1)
    (opener : Token) (hnone : room = 0 → inner = none)
    (hsome : ∀ r, room = r + 1 → ∃ rule, inner = some rule ∧ rule.FailsAt level xs ts) :
    (Rule.nested opener inner).FailsAt level ((opener, some (depth + 1)) :: xs) ts := by
  cases room with
  | zero =>
    obtain rfl := hnone rfl
    obtain rfl := hlevel
    exact ⟨opener, ts, firstOpener_cons_self opener xs, rfl⟩
  | succ r =>
    obtain ⟨rule, rfl, o, after, ho, hfails⟩ := hsome r rfl
    exact ⟨o, after, by rw [firstOpener_cons_of_ne (by omega), ho], hfails⟩

theorem nestedExpression_failsAt {field : ExprRules → Rule Expr} {n : Nonterminal}
    (hfield : ∀ r, field (exprRules r) = n.rule (innerRules r)) (hlevel : level = depth + room + 1)
    (opener : Token) (h : ∀ r, room = r + 1 → (n.rule (innerRules r)).FailsAt level xs ts) :
    (Rule.nested opener ((innerRules room).map field)).FailsAt level
      ((opener, some (depth + 1)) :: xs) ts := by
  refine Rule.nested_failsAt hlevel opener ?_ ?_
  · rintro rfl
    rfl
  · rintro r rfl
    exact ⟨_, rfl, by rw [hfield]; exact h r rfl⟩

theorem leftAssociative_failsAt {op? : TokenKind → Option BinaryOp} {operand : Rule Expr}
    {first : Expr} {mid : List Token} (hr : operand.Reads ts first [] mid)
    (h : (chainRule op? operand mid.length first).FailsAt level xs mid) :
    (leftAssociative op? operand).FailsAt level xs ts := by
  unfold leftAssociative
  exact .bind_of_reads hr h

theorem primaryRule_of_leftParen (inner : Option ExprRules) (left : Terminal .leftParen)
    (ts : List Token) : primaryRule inner (left.val :: ts) = groupingRule inner left.val ts := by
  have ha : atom? left.val = none := by simp [atom?, left.property]
  simp only [primaryRule, ha, left.property, if_true]

mutual

theorem ExprTree.failsAt : ∀ {n : Nonterminal} (d : ExprTree n) (depth room : Nat)
    {rest : List Token}, room < d.expr.nesting → level = depth + room + 1 → n.Stops rest →
      (n.rule (innerRules room)).FailsAt level (d.levels depth) (d.tokens ++ rest)
  | _, .assign name equals value, depth, room, rest, h, hlevel, hs => by
    rw [ExprTree.expr, Expr.nesting] at h
    have hname := equalityRule_reads_name (innerRules room) name
      (equal_stops_equality equals (value.tokens ++ rest))
    have hequals : (Rule.accept? (only .equal)).Reads (equals.val :: (value.tokens ++ rest))
        (some ((), equals.val)) [] (value.tokens ++ rest) :=
      Rule.reads_accept_some.mpr ⟨rfl, only_eq_some_iff.mpr equals.property, rfl⟩
    have hvalue := nestedExpression_failsAt expression_exprRules hlevel equals.val
      fun r hr => value.failsAt (depth + 1) r (by omega) (by omega) hs
    apply Rule.FailsAt.cons_none
    apply Rule.FailsAt.bind_of_reads hname
    apply Rule.FailsAt.bind_of_reads hequals
    exact hvalue.bind _
  | _, .equality e, depth, room, rest, h, hlevel, hs =>
    (e.failsAt depth room h hlevel (stops_equality hs)).bind _
  | .operation tier, .operation first others, depth, room, rest, h, hlevel, hs => by
    rw [ExprTree.expr] at h
    rw [Nonterminal.rule_operation, ExprTree.levels, ExprTree.tokens, List.append_assoc]
    by_cases hfirst : first.expr.nesting ≤ room
    · have hreads := first.reads hfirst (others.stops_operand hs)
      have hothers := others.failsAt hfirst h hlevel hs (Nat.le_refl _)
      have hnone : firstOpener level (first.levels depth) = none :=
        first.firstOpener_eq_none depth (by omega)
      exact (leftAssociative_failsAt hreads hothers).prepend hnone
    · exact ((first.failsAt depth room (by omega) hlevel (others.stops_operand hs)).bind _).append _
  | _, .unary op token operand, depth, room, rest, h, hlevel, hs => by
    rw [ExprTree.expr, Expr.nesting] at h
    have htoken : (Rule.accept? unaryOp?).Reads (token.val :: (operand.tokens ++ rest))
        (some (op, token.val)) [] (operand.tokens ++ rest) :=
      Rule.reads_accept_some.mpr ⟨rfl, unaryOp?_eq_some_iff.mpr token.property.symm, rfl⟩
    have hoperand := nestedExpression_failsAt operand_exprRules hlevel token.val
      fun r hr => operand.failsAt (depth + 1) r (by omega) (by omega) hs
    exact .bind_of_reads htoken (hoperand.bind _)
  | _, .primary e, depth, room, rest, h, hlevel, hs => by
    obtain ⟨t, ts, ht, hk⟩ := e.primary_head
    have hnone : (Rule.accept? unaryOp?).Reads (e.tokens ++ rest) none [] (e.tokens ++ rest) := by
      refine Rule.reads_accept_none.mpr ⟨?_, rfl, rfl⟩
      simpa [ht] using unaryOp?_eq_none_of_opensPrimary hk
    exact .bind_of_reads hnone (e.failsAt depth room h hlevel hs)
  | _, .atom a, depth, room, rest, h, _, _ => by
    cases a <;> exact absurd h (Nat.not_lt_zero room)
  | _, .grouping left inner right, depth, room, rest, h, hlevel, hs => by
    rw [ExprTree.expr, Expr.nesting] at h
    have hstops : Nonterminal.assignment.Stops (right.val :: rest) :=
      closer_stops_assignment (.inr right.property)
    have hinner := nestedExpression_failsAt expression_exprRules hlevel left.val
      fun r hr => inner.failsAt (depth + 1) r (by omega) (by omega) hstops
    have hrule : (groupingRule (innerRules room) left.val).FailsAt level _ _ :=
      (hinner.append [(right.val, none)]).bind _
    have htokens : (ExprTree.grouping left inner right).tokens ++ rest =
        left.val :: (inner.tokens ++ right.val :: rest) := by
      simp [ExprTree.tokens]
    unfold Rule.FailsAt Rule.Fails at hrule ⊢
    rw [htokens, Nonterminal.rule, primaryRule_of_leftParen]
    exact hrule

theorem OperandTrees.failsAt : ∀ {tier : Tier} (d : OperandTrees tier) {left : Expr}
    {depth room count : Nat} {rest : List Token}, left.nesting ≤ room →
      room < (d.expr left).nesting → level = depth + room + 1 →
      (Nonterminal.operation tier).Stops rest → (d.tokens ++ rest).length ≤ count →
      (chainRule tier.op? (tier.operand.rule (innerRules room)) count left).FailsAt level
        (d.levels depth) (d.tokens ++ rest)
  | tier, .nil, left, depth, room, count, rest, hleft, h, _, _, _ => absurd h (Nat.not_lt.mpr hleft)
  | tier, .cons op tier_eq token operand others, left, depth, room, count, rest, hleft, h, hlevel,
      hs, hc => by
    rw [OperandTrees.expr] at h
    rw [OperandTrees.tokens] at hc
    simp only [List.cons_append, List.append_assoc, List.length_cons] at hc
    obtain ⟨c, rfl⟩ : ∃ c, count = c + 1 := ⟨count - 1, by omega⟩
    have htoken : (Rule.accept? tier.op?).Reads
        (token.val :: (operand.tokens ++ (others.tokens ++ rest))) (some (op, token.val)) []
        (operand.tokens ++ (others.tokens ++ rest)) :=
      Rule.reads_accept_some.mpr
        ⟨rfl, Tier.op?_eq_some_iff.mpr ⟨tier_eq, token.property.symm⟩, rfl⟩
    rw [OperandTrees.levels, OperandTrees.tokens, List.cons_append, List.append_assoc]
    apply Rule.FailsAt.cons_none
    apply Rule.FailsAt.bind_of_reads htoken
    by_cases hoperand : operand.expr.nesting ≤ room
    · have hreads := operand.reads hoperand (others.stops_operand hs)
      have hleft' : (Expr.binary op token.val left operand.expr).nesting ≤ room := by
        rw [Expr.nesting]
        omega
      have hlength : (others.tokens ++ rest).length ≤ c := by
        simp only [List.length_append] at hc ⊢
        omega
      have hothers := others.failsAt hleft' h hlevel hs hlength
      have hnone : firstOpener level (operand.levels depth) = none :=
        operand.firstOpener_eq_none depth (by omega)
      exact (Rule.FailsAt.bind_of_reads hreads hothers).prepend hnone
    · have hfails := operand.failsAt depth room (by omega) hlevel (others.stops_operand hs)
      exact (hfails.bind _).append _

end

end Expressions

section Statements

variable {level depth room : Nat} {declared : List String} {reports : List SyntaxReport}
  {ts rest : List Token} {e : SyntaxError}

/-- The first error on too much nesting. -/
def nestingError? (reports : List SyntaxReport) : Option SyntaxError :=
  (reports.find? (·.error.fault = .tooMuchNesting)).map SyntaxReport.error

theorem nestingError?_append (xs ys : List SyntaxReport) :
    nestingError? (xs ++ ys) = (nestingError? xs).or (nestingError? ys) := by
  rw [nestingError?, List.find?_append]
  cases hx : xs.find? (·.error.fault = .tooMuchNesting) <;> simp [nestingError?, hx]

theorem nestingError?_redeclared (names : List Token) :
    nestingError? (names.map redeclaredReport) = none := by
  simp [nestingError?, redeclaredReport]

theorem nestingError?_bind {α β : Type} {rule : Rule α}
    (h : nestingError? (rule ts).reports = some e) (next : α → Rule β) :
    nestingError? ((rule >>= next) ts).reports = some e := by
  have hbind : (rule >>= next) ts = rule.bind next ts := rfl
  rcases hr : rule ts with ⟨result, before, mid⟩
  rw [hr] at h
  cases result with
  | error e => rwa [hbind, Rule.bind_error hr]
  | ok a =>
    rw [hbind, Rule.bind_ok hr, nestingError?_append, h, Option.some_or]

theorem nestingError?_recovering {rule : Rule Stmt} (h : nestingError? (rule ts).reports = some e) :
    nestingError? (recovering rule ts).reports = some e := by
  unfold recovering
  split <;> rename_i hr <;> rw [hr] at h
  · exact h
  · rw [nestingError?_append, h, Option.some_or]

theorem nestingError?_recovering_of_fails {rule : Rule Stmt} {opener : Token}
    (h : rule.Fails ts ⟨.tooMuchNesting, some opener⟩ reports rest)
    (hreports : nestingError? reports = none) :
    nestingError? (recovering rule ts).reports = some ⟨.tooMuchNesting, some opener⟩ := by
  have h : rule ts = ⟨.error ⟨.tooMuchNesting, some opener⟩, reports, rest⟩ := h
  unfold recovering
  rw [h]
  dsimp only
  rw [nestingError?_append, hreports, Option.none_or]
  simp [nestingError?]

/-- The first error on too much nesting is at the first of the tokens that opens the level. -/
def ReportedAt (level : Nat) (marked : List Marked) (reports : List SyntaxReport) : Prop :=
  ∃ opener, firstOpener level marked = some opener ∧
    nestingError? reports = some ⟨.tooMuchNesting, some opener⟩

theorem expressionRule_failsAt (d : ExprTree .assignment) (h : room < d.expr.nesting)
    (hlevel : level = depth + room + 1) (hs : Nonterminal.assignment.Stops rest) :
    (expressionRule room).FailsAt level (d.levels depth) (d.tokens ++ rest) := by
  rw [expressionRule, expression_exprRules]
  exact d.failsAt depth room h hlevel hs

theorem initializerRule_failsAt {initializer : Option (Terminal .equal × ExprTree .assignment)}
    (h : ∃ i ∈ initializer, room < i.2.expr.nesting) (hlevel : level = depth + room + 1)
    (hs : Nonterminal.assignment.Stops rest) :
    (initializerRule room).FailsAt level (initializerLevels depth initializer)
      (initializerTokens initializer ++ rest) := by
  obtain ⟨⟨equals, d⟩, rfl, hd⟩ := h
  have hequals : (Rule.accept? (only .equal)).Reads (equals.val :: (d.tokens ++ rest))
      (some ((), equals.val)) [] (d.tokens ++ rest) :=
    Rule.reads_accept_some.mpr ⟨rfl, only_eq_some_iff.mpr equals.property, rfl⟩
  apply Rule.FailsAt.cons_none
  apply Rule.FailsAt.bind_of_reads hequals
  exact (expressionRule_failsAt d hd hlevel hs).bind _

theorem varRule_fails_of_initializer (declared : List String) {name : Token} (hname : name.kind = .identifier)
    (h : (initializerRule room).Fails ts e [] rest) :
    (varRule room declared).Fails (name :: ts) e
      (((Stmt.var name none).redeclared declared).map redeclaredReport) rest := by
  have hexpect : (Rule.expect .identifier .expectName).Reads (name :: ts) name [] ts :=
    Rule.reads_expect.mpr ⟨rfl, hname, rfl⟩
  have hfresh : (freshNameRule declared name).Reads ts () _ ts :=
    freshNameRule_reads.mpr ⟨rfl, rfl⟩
  rw [← List.append_nil (List.map _ _)]
  apply Rule.fails_bind_of_reads hexpect
  apply Rule.fails_bind_of_reads hfresh
  exact Rule.fails_bind h

theorem nestingError?_block {left : Token} (hleft : left.kind = .leftBrace)
    (h : nestingError? (scopeFrom room (· = .rightBrace) [] ts).reports = some e) :
    nestingError? (declarationRule (room + 1) (innerBlockRule (room + 1)) declared
      (left :: ts)).reports = some e := by
  have hrule : declarationRule (room + 1) (innerBlockRule (room + 1)) declared (left :: ts) =
      (blockRule room (innerBlockRule room) >>= fun body => pure (.block body)) ts := by
    rw [declarationRule, hleft]
    rfl
  have hbody : nestingError? (bodyRule room (innerBlockRule room) ts).reports = some e := h
  have hblock : nestingError? (blockRule room (innerBlockRule room) ts).reports = some e :=
    nestingError?_bind hbody _
  rw [hrule]
  exact nestingError?_bind hblock _

theorem firstOpener_initializerLevels
    {initializer : Option (Terminal .equal × ExprTree .assignment)}
    (h : ∀ i ∈ initializer, depth + i.2.expr.nesting < level) :
    firstOpener level (initializerLevels depth initializer) = none := by
  cases initializer with
  | none => rfl
  | some i =>
    obtain ⟨equals, d⟩ := i
    rw [initializerLevels, firstOpener_cons_none, d.firstOpener_eq_none depth (h _ rfl)]

mutual

theorem StmtTree.firstOpener_eq_none : ∀ (d : StmtTree) (depth : Nat),
    depth + d.stmt.nesting < level → firstOpener level (d.levels depth) = none
  | .expression e semicolon, depth, h => by
    rw [StmtTree.stmt, Stmt.nesting] at h
    simp [StmtTree.levels, e.firstOpener_eq_none depth h]
  | .print keyword e semicolon, depth, h => by
    rw [StmtTree.stmt, Stmt.nesting] at h
    simp [StmtTree.levels, e.firstOpener_eq_none depth h]
  | .var keyword name initializer semicolon, depth, h => by
    have hi : ∀ i ∈ initializer, depth + i.2.expr.nesting < level := by
      rintro i rfl
      simpa [StmtTree.stmt, Stmt.nesting] using h
    simp [StmtTree.levels, firstOpener_initializerLevels hi]
  | .block left body right, depth, h => by
    rw [StmtTree.stmt, Stmt.nesting] at h
    have hbody := StmtTree.firstOpener_list_eq_none body (depth + 1) (by omega)
    rw [StmtTree.levels, firstOpener_cons_of_ne (by omega)]
    simp [hbody]

theorem StmtTree.firstOpener_list_eq_none : ∀ (ds : List StmtTree) (depth : Nat),
    depth + Stmt.listNesting (StmtTree.listStmts ds) < level →
      firstOpener level (StmtTree.listLevels depth ds) = none
  | [], depth, _ => rfl
  | d :: ds, depth, h => by
    rw [StmtTree.listStmts, Stmt.listNesting] at h
    rw [StmtTree.listLevels, firstOpener_append, d.firstOpener_eq_none depth (by omega),
      StmtTree.firstOpener_list_eq_none ds depth (by omega), Option.or_none]

end

mutual

/-- A declaration that nests too deep is stopped, or a declaration inside it is, and the first error on
nesting is at the first opener of the level that there is no room for. -/
theorem StmtTree.reportedAt : ∀ (d : StmtTree) {depth room : Nat} (declared : List String)
    (rest : List Token), room < d.stmt.nesting → level = depth + room + 1 →
      ReportedAt level (d.levels depth)
        (recovering (declarationRule room (innerBlockRule room) declared) (d.tokens ++ rest)).reports
  | .expression e semicolon, depth, room, declared, rest, h, hlevel => by
    have hs : Nonterminal.assignment.Stops (semicolon.val :: rest) :=
      closer_stops_assignment (.inl semicolon.property)
    have hopens : ∀ t ∈ (e.tokens ++ semicolon.val :: rest).head?,
        t.kind ≠ .var ∧ t.kind ≠ .print ∧ t.kind ≠ .leftBrace := by
      obtain ⟨t, ts, ht, hk⟩ := e.head
      simpa [ht] using kind_of_opensExpression hk
    have hrule : (expressionStatementRule room).FailsAt level _ (e.tokens ++ semicolon.val :: rest) :=
      ((expressionRule_failsAt e h hlevel hs).append [(semicolon.val, none)]).bind _
    obtain ⟨opener, after, hopener, hfails⟩ := hrule
    rw [StmtTree.tokens, List.append_assoc, List.singleton_append]
    exact ⟨opener, hopener,
      nestingError?_recovering_of_fails ((declarationRule_expression hopens).trans hfails) rfl⟩
  | .print keyword e semicolon, depth, room, declared, rest, h, hlevel => by
    have hs : Nonterminal.assignment.Stops (semicolon.val :: rest) :=
      closer_stops_assignment (.inl semicolon.property)
    have hrule : (printRule room keyword.val).FailsAt level _ (e.tokens ++ semicolon.val :: rest) :=
      (((expressionRule_failsAt e h hlevel hs).append [(semicolon.val, none)]).cons_none
        keyword.val).bind _
    obtain ⟨opener, after, hopener, hfails⟩ := hrule
    rw [StmtTree.tokens, List.cons_append, List.append_assoc, List.singleton_append]
    exact ⟨opener, hopener, nestingError?_recovering_of_fails
      ((declarationRule_print keyword.property _).trans hfails) rfl⟩
  | .var keyword name initializer semicolon, depth, room, declared, rest, h, hlevel => by
    have hs : Nonterminal.assignment.Stops (semicolon.val :: rest) :=
      closer_stops_assignment (.inl semicolon.property)
    have hi : ∃ i ∈ initializer, room < i.2.expr.nesting := by
      cases initializer with
      | none => exact absurd h (Nat.not_lt_zero room)
      | some i => exact ⟨i, rfl, h⟩
    obtain ⟨opener, after, hopener, hfails⟩ := initializerRule_failsAt hi hlevel hs
    have hrule := varRule_fails_of_initializer declared name.property hfails
    refine ⟨opener, ?_, ?_⟩
    · simp [StmtTree.levels, hopener]
    · rw [StmtTree.tokens, List.cons_append, List.cons_append, List.append_assoc,
        List.singleton_append]
      refine nestingError?_recovering_of_fails
        ((declarationRule_var keyword.property _).trans hrule) ?_
      exact nestingError?_redeclared _
  | .block left body right, depth, room, declared, rest, h, hlevel => by
    rw [StmtTree.stmt, Stmt.nesting] at h
    rw [StmtTree.levels, StmtTree.tokens, List.cons_append, List.append_assoc, List.singleton_append]
    cases room with
    | zero =>
      obtain rfl := hlevel
      have hrule : (declarationRule 0 (innerBlockRule 0) declared).Fails
          (left.val :: (StmtTree.listTokens body ++ right.val :: rest))
          ⟨.tooMuchNesting, some left.val⟩ [] (StmtTree.listTokens body ++ right.val :: rest) := by
        rw [Rule.Fails, declarationRule, left.property]
        rfl
      exact ⟨left.val, firstOpener_cons_self _ _, nestingError?_recovering_of_fails hrule rfl⟩
    | succ r =>
      obtain ⟨opener, hopener, herror⟩ := StmtTree.list_reportedAt body (depth + 1) r
        (· = .rightBrace) [] (right.val :: rest) (by simp) (by omega) (by omega)
      refine ⟨opener, ?_, nestingError?_recovering (nestingError?_block left.property herror)⟩
      rw [firstOpener_cons_of_ne (by omega), firstOpener_append, hopener, Option.some_or]

theorem StmtTree.list_reportedAt : ∀ (ds : List StmtTree) (depth room : Nat)
    (stops : TokenKind → Bool) (declared : List String) (rest : List Token),
    (∀ k, stops k = true → k = .rightBrace) →
      room < Stmt.listNesting (StmtTree.listStmts ds) → level = depth + room + 1 →
      ReportedAt level (StmtTree.listLevels depth ds)
        (scopeFrom room stops declared (StmtTree.listTokens ds ++ rest)).reports
  | [], depth, room, stops, declared, rest, _, h, _ => absurd h (Nat.not_lt_zero room)
  | d :: ds, depth, room, stops, declared, rest, hstops, h, hlevel => by
    rw [StmtTree.listStmts, Stmt.listNesting] at h
    rw [StmtTree.listLevels, StmtTree.listTokens, List.append_assoc]
    by_cases hd : d.stmt.nesting ≤ room
    · obtain ⟨opener, hopener, herror⟩ := StmtTree.list_reportedAt ds depth room stops
        (d.stmt.declares.toList ++ declared) rest hstops (by omega) hlevel
      have hnone : firstOpener level (d.levels depth) = none :=
        d.firstOpener_eq_none depth (by omega)
      refine ⟨opener, by rw [firstOpener_append, hnone, hopener, Option.none_or], ?_⟩
      rw [scopeFrom_tokens_append hstops d hd, nestingError?_append, nestingError?_redeclared,
        Option.none_or, herror]
    · obtain ⟨opener, hopener, herror⟩ := d.reportedAt declared (StmtTree.listTokens ds ++ rest)
        (by omega) hlevel
      obtain ⟨t, ts, ht, hk⟩ := d.head_continues hstops
      refine ⟨opener, by rw [firstOpener_append, hopener, Option.some_or], ?_⟩
      rw [ht, List.cons_append] at herror ⊢
      rw [scopeFrom_cons room declared hk, nestingError?_append, herror, Option.some_or]

end

end Statements

section Diagnostics

/-- The diagnostic on a construct that opens one level too many. -/
def nestingDiagnostic (opener : Token) : Diagnostic where
  phase := .syntactic
  span := opener.span
  line := opener.line
  location := .at opener.lexeme
  message := "Too much nesting."
  help := some "At most 64 levels of nesting are allowed."

theorem SyntaxFault.message_eq_tooMuchNesting_iff {fault : SyntaxFault} :
    fault.message = "Too much nesting." ↔ fault = .tooMuchNesting := by
  constructor
  · intro h
    cases fault with
    | tooMuchNesting => rfl
    | redeclared name =>
      have hlist : ("Already a variable named '" ++ name ++ "' in this scope.").toList =
          "Too much nesting.".toList := congrArg String.toList h
      rw [String.toList_append, String.toList_append, List.append_assoc] at hlist
      have hother : "Already a variable named '".toList.head? = some 'A' := by decide
      have hhead := congrArg List.head? hlist
      rw [List.head?_append, hother, Option.some_or] at hhead
      exact absurd hhead (by decide)
    | _ => exact absurd h (by decide)
  · rintro rfl
    rfl

theorem find?_diagnostics {p : Parse} {opener : Token}
    (h : nestingError? p.reports = some ⟨.tooMuchNesting, some opener⟩) :
    p.diagnostics.find? (·.message = "Too much nesting.") = some (nestingDiagnostic opener) := by
  obtain ⟨report, hreport, herror⟩ := Option.map_eq_some_iff.mp h
  have hmessage : ((fun d : Diagnostic => decide (d.message = "Too much nesting.")) ∘
      fun r : SyntaxReport => r.error.diagnostic p.eof) =
        fun r => decide (r.error.fault = .tooMuchNesting) := by
    funext r
    exact decide_eq_decide.mpr SyntaxFault.message_eq_tooMuchNesting_iff
  rw [Parse.diagnostics, List.find?_map, hmessage, hreport, Option.map_some, herror]
  rfl

/-- No statement that is read, with or without errors, nests deeper than the limit. What is derived
beyond the limit is reported, and the first report on nesting is at the first token of the text that
opens the level above the limit. -/
theorem nesting_limit_exact :
    (∀ ts : List Token, ∀ stmt ∈ (parse ts).statements, stmt.nesting ≤ maxNesting) ∧
      ∀ (ds : List StmtTree) (suffix : List Token), (∀ t ∈ suffix.head?, t.kind = .eof) →
        maxNesting < Stmt.listNesting (StmtTree.listStmts ds) →
          (StmtTree.listLevels 0 ds).map Prod.fst = StmtTree.listTokens ds ∧
          ∃ opener, firstOpener (maxNesting + 1) (StmtTree.listLevels 0 ds) = some opener ∧
            (parse (StmtTree.listTokens ds ++ suffix)).diagnostics.find?
              (·.message = "Too much nesting.") = some (nestingDiagnostic opener) := by
  refine ⟨fun ts stmt hstmt => ?_, fun ds suffix hsuffix h => ?_⟩
  · exact Nat.le_trans (Stmt.nesting_le_of_mem hstmt) (listNesting_parse_le ts)
  · have hlevel : maxNesting + 1 = 0 + maxNesting + 1 := by omega
    obtain ⟨opener, hopener, herror⟩ := StmtTree.list_reportedAt ds 0 maxNesting (fun _ => false)
      [] [] (by simp) h hlevel
    refine ⟨StmtTree.map_fst_listLevels ds 0, opener, hopener, find?_diagnostics ?_⟩
    rw [parse, takeWhile_listTokens ds hsuffix]
    rwa [List.append_nil] at herror

/-- So many `!` in front of `nil`, the first of them at the offset. -/
def negations (offset : Nat) : Nat → ExprTree .unary
  | 0 => .primary (.atom (.nil ⟨⟨.nil, "nil", none, 1, ⟨offset, offset + 3⟩⟩, rfl⟩))
  | count + 1 =>
    .unary .not ⟨⟨.bang, "!", none, 1, .single offset⟩, rfl⟩ (negations (offset + 1) count)

/-- `{a=(!!..!nil);}` with 62 signs. -/
theorem nesting_limit_exact_mixed :
    let terminal (kind : TokenKind) (lexeme : String) (start : Nat) : Terminal kind :=
      ⟨⟨kind, lexeme, none, 1, ⟨start, start + lexeme.length⟩⟩, rfl⟩
    let lift (e : ExprTree .unary) : ExprTree .assignment :=
      .equality (@ExprTree.operation .equality (@ExprTree.operation .comparison
        (@ExprTree.operation .term (@ExprTree.operation .factor e .nil) .nil) .nil) .nil)
    let grouping : ExprTree .primary :=
      .grouping (terminal .leftParen "(" 3) (lift (negations 4 62)) (terminal .rightParen ")" 69)
    let ds : List StmtTree :=
      [.block (terminal .leftBrace "\x7b" 0)
        [.expression (.assign (terminal .identifier "a" 1) (terminal .equal "=" 2)
          (lift (.primary grouping))) (terminal .semicolon ";" 70)]
        (terminal .rightBrace "\x7d" 71)]
    let suffix := [eofToken ⟨72, 1⟩]
    (∀ t ∈ suffix.head?, t.kind = .eof) ∧
      maxNesting < Stmt.listNesting (StmtTree.listStmts ds) ∧
      (parse (StmtTree.listTokens ds ++ suffix)).diagnostics.find?
          (·.message = "Too much nesting.") =
        some (nestingDiagnostic ⟨.bang, "!", none, 1, .single 65⟩) := by
  intro terminal lift grouping ds suffix
  have hsuffix : ∀ t ∈ suffix.head?, t.kind = .eof := by simp [suffix, eofToken]
  have hdeep : maxNesting < Stmt.listNesting (StmtTree.listStmts ds) := by decide
  obtain ⟨-, opener, hopener, hreport⟩ := nesting_limit_exact.2 ds suffix hsuffix hdeep
  have hbang : firstOpener (maxNesting + 1) (StmtTree.listLevels 0 ds) =
      some ⟨.bang, "!", none, 1, .single 65⟩ := by decide
  rw [hbang] at hopener
  cases hopener
  exact ⟨hsuffix, hdeep, hreport⟩

end Diagnostics

end Treewalk
