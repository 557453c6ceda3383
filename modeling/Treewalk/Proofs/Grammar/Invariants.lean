import Treewalk.Grammar.Program
import Treewalk.Proofs.Grammar.Vocabulary

/-! Invariants of reading, with or without errors. A rule takes the next token, stops at the next
token or at one that it has taken, or makes a report on a token that it has taken. What these steps
keep is kept by every rule, and the results nest no deeper than the room that the rule has. -/

namespace Treewalk

variable {α β : Type}

/-- What holds while an expression is read: of the tokens that remain, of those that were taken, of
the error that stops the reading, and of the reports made meanwhile. -/
structure ExpressionInvariant where
  remaining : List Token → Prop
  taken : Token → Prop
  stopped : SyntaxError → Prop
  reported : SyntaxReport → Prop
  taken_head : ∀ {t : Token} {ts : List Token}, remaining (t :: ts) → taken t
  remaining_tail : ∀ {t : Token} {ts : List Token}, remaining (t :: ts) →
    t.kind.inExpression = true → remaining ts
  stopped_here : ∀ {ts : List Token} (fault : SyntaxFault), remaining ts →
    stopped ⟨fault, ts.head?⟩
  stopped_opener : ∀ {t : Token}, taken t → stopped ⟨.tooMuchNesting, some t⟩
  reported_target : ∀ {t : Token}, taken t → t.kind = .equal →
    reported ⟨⟨.invalidTarget, some t⟩, none⟩

namespace ExpressionInvariant

structure Holds (I : ExpressionInvariant) (reading : Reading α) (P : α → Prop) : Prop where
  remaining : I.remaining reading.rest
  reported : ∀ r ∈ reading.reports, I.reported r
  value : P reading.value

def Result (I : ExpressionInvariant) (P : α → Prop) : Except SyntaxError α → Prop
  | .ok a => P a
  | .error e => I.stopped e

/-- The rule keeps the invariant, and what it reads has the property. -/
def Keeps (I : ExpressionInvariant) (rule : Rule α) (P : α → Prop) : Prop :=
  ∀ ts, I.remaining ts → I.Holds (rule ts) (I.Result P)

variable {I : ExpressionInvariant} {P : α → Prop} {Q : β → Prop}

theorem keeps_pure {a : α} (h : P a) : I.Keeps (pure a) P :=
  fun _ hts => ⟨hts, List.forall_mem_nil _, h⟩

theorem keeps_bind {rule : Rule α} {next : α → Rule β} (h : I.Keeps rule P)
    (hnext : ∀ a, P a → I.Keeps (next a) Q) : I.Keeps (rule >>= next) Q := by
  intro ts hts
  have hrule := h ts hts
  have hbind : (rule >>= next) ts = rule.bind next ts := rfl
  rcases he : rule ts with ⟨result, before, mid⟩
  rw [he] at hrule
  cases result with
  | error e =>
    rw [hbind, Rule.bind_error he]
    exact ⟨hrule.remaining, hrule.reported, hrule.value⟩
  | ok a =>
    have hafter := hnext a hrule.value mid hrule.remaining
    rw [hbind, Rule.bind_ok he]
    exact ⟨hafter.remaining, List.forall_mem_append.mpr ⟨hrule.reported, hafter.reported⟩,
      hafter.value⟩

theorem Keeps.mono {rule : Rule α} {P' : α → Prop} (h : I.Keeps rule P) (hP : ∀ a, P a → P' a) :
    I.Keeps rule P' := by
  intro ts hts
  obtain ⟨hremaining, hreported, hvalue⟩ := h ts hts
  refine ⟨hremaining, hreported, ?_⟩
  cases hv : (rule ts).value with
  | ok a =>
    rw [hv] at hvalue
    exact hP a hvalue
  | error e =>
    rw [hv] at hvalue
    exact hvalue

theorem Keeps.remaining_of_reads {rule : Rule α} (h : I.Keeps rule P) {ts rest : List Token} {a : α}
    {reports : List SyntaxReport} (hts : I.remaining ts) (hr : rule.Reads ts a reports rest) :
    I.remaining rest := by
  have hrest := (h ts hts).remaining
  rwa [hr] at hrest

theorem keeps_failHere (fault : SyntaxFault) : I.Keeps (Rule.failHere fault) P :=
  fun _ hts => ⟨hts, List.forall_mem_nil _, I.stopped_here fault hts⟩

theorem keeps_report {fault : SyntaxFault} {place : Token}
    (h : I.reported ⟨⟨fault, some place⟩, none⟩) :
    I.Keeps (Rule.report fault place) fun _ => True :=
  fun _ hts => ⟨hts, List.forall_mem_singleton.mpr h, trivial⟩

def Accepted (I : ExpressionInvariant) (image : TokenKind → Option α)
    (found : Option (α × Token)) : Prop :=
  ∀ a t, found = some (a, t) → image t.kind = some a ∧ I.taken t

theorem keeps_accept {image : TokenKind → Option α}
    (htail : ∀ {t ts a}, I.remaining (t :: ts) → image t.kind = some a → I.remaining ts) :
    I.Keeps (Rule.accept? image) (I.Accepted image) := by
  intro ts hts
  cases ts with
  | nil => exact ⟨hts, List.forall_mem_nil _, fun a t h => by cases h⟩
  | cons t ts =>
    cases hi : image t.kind with
    | none =>
      have he : Rule.accept? image (t :: ts) = ⟨.ok none, [], t :: ts⟩ := by
        simp [Rule.accept?, hi]
      rw [he]
      exact ⟨hts, List.forall_mem_nil _, fun a t h => by cases h⟩
    | some a =>
      have he : Rule.accept? image (t :: ts) = ⟨.ok (some (a, t)), [], ts⟩ := by
        simp [Rule.accept?, hi]
      rw [he]
      refine ⟨htail hts hi, List.forall_mem_nil _, ?_⟩
      intro b u hb
      cases hb
      exact ⟨hi, I.taken_head hts⟩

theorem keeps_expect {kind : TokenKind} {fault : SyntaxFault}
    (htail : ∀ {t ts}, I.remaining (t :: ts) → t.kind = kind → I.remaining ts) :
    I.Keeps (Rule.expect kind fault) fun t => t.kind = kind ∧ I.taken t := by
  have ha : I.Keeps (Rule.accept? (only kind)) (I.Accepted (only kind)) :=
    keeps_accept fun hts hi => htail hts (only_eq_some_iff.mp hi)
  apply keeps_bind ha
  intro found hfound
  cases found with
  | none => exact keeps_failHere fault
  | some found =>
    obtain ⟨u, t⟩ := found
    have ht := hfound u t rfl
    exact keeps_pure ⟨only_eq_some_iff.mp ht.1, ht.2⟩

theorem keeps_nested {opener : Token} {inner : Option (Rule α)} (ho : I.taken opener)
    (h : ∀ rule ∈ inner, I.Keeps rule P) : I.Keeps (Rule.nested opener inner) P := by
  cases inner with
  | none => exact fun _ hts => ⟨hts, List.forall_mem_nil _, I.stopped_opener ho⟩
  | some rule => exact h rule rfl

end ExpressionInvariant

open ExpressionInvariant

section Expressions

variable {I : ExpressionInvariant} {room : Nat}

/-- With so much room, the nonterminal's rule keeps the invariant and reads what fits. -/
def Nonterminal.Bounded (I : ExpressionInvariant) (room : Nat) (n : Nonterminal) : Prop :=
  I.Keeps (n.rule (innerRules room)) fun e => e.nesting ≤ room

theorem nested_keeps {field : ExprRules → Rule Expr} {n : Nonterminal}
    (hfield : ∀ r, field (exprRules r) = n.rule (innerRules r))
    (ih : ∀ r, room = r + 1 → n.Bounded I r) {opener : Token} (ho : I.taken opener) :
    I.Keeps (Rule.nested opener ((innerRules room).map field)) fun e => e.nesting < room := by
  apply keeps_nested ho
  intro rule hrule
  cases room with
  | zero => cases hrule
  | succ r =>
    cases hrule
    have hr := ih r rfl
    rw [hfield]
    exact hr.mono fun e he => by omega

theorem groupingRule_keeps (ih : ∀ r, room = r + 1 → Nonterminal.assignment.Bounded I r)
    {paren : Token} (hp : I.taken paren) :
    I.Keeps (groupingRule (innerRules room) paren) fun e => e.nesting ≤ room := by
  apply keeps_bind (nested_keeps expression_exprRules ih hp)
  intro e he
  have hclose : I.Keeps (Rule.expect .rightParen .expectParenAfterExpression) _ :=
    keeps_expect fun hts hk => I.remaining_tail hts (by rw [hk]; rfl)
  apply keeps_bind hclose
  intro t ht
  exact keeps_pure he

theorem primary_bounded (ih : ∀ r, room = r + 1 → Nonterminal.assignment.Bounded I r) :
    Nonterminal.primary.Bounded I room := by
  intro ts hts
  cases ts with
  | nil => exact keeps_failHere .expectExpression [] hts
  | cons t ts =>
    cases ha : atom? t with
    | some e =>
      obtain ⟨a, rfl, rfl⟩ := exists_atom_of_atom? ha
      have he : Nonterminal.primary.rule (innerRules room) (a.token :: ts) =
          ⟨.ok a.expr, [], ts⟩ := by
        simp [Nonterminal.rule, primaryRule, ha]
      have hk := inExpression_of_opensPrimary (opensPrimary_atom a)
      have hn : a.expr.nesting = 0 := by cases a <;> rfl
      rw [he]
      exact ⟨I.remaining_tail hts hk, List.forall_mem_nil _, by simp [Result, hn]⟩
    | none =>
      by_cases hk : t.kind = .leftParen
      · have he : Nonterminal.primary.rule (innerRules room) (t :: ts) =
            groupingRule (innerRules room) t ts := by
          simp [Nonterminal.rule, primaryRule, ha, hk]
        have htail : I.remaining ts := I.remaining_tail hts (by rw [hk]; rfl)
        rw [he]
        exact groupingRule_keeps ih (I.taken_head hts) ts htail
      · have he : Nonterminal.primary.rule (innerRules room) (t :: ts) =
            Rule.failHere .expectExpression (t :: ts) := by
          simp [Nonterminal.rule, primaryRule, ha, hk]
        rw [he]
        exact keeps_failHere .expectExpression (t :: ts) hts

theorem unary_bounded (ih : ∀ r, room = r + 1 → Nonterminal.unary.Bounded I r)
    (hp : Nonterminal.primary.Bounded I room) : Nonterminal.unary.Bounded I room := by
  have ha : I.Keeps (Rule.accept? unaryOp?) (I.Accepted unaryOp?) := by
    refine keeps_accept fun hts hi => I.remaining_tail hts ?_
    rw [← unaryOp?_eq_some_iff.mp hi]
    exact UnaryOp.inExpression_kind _
  apply keeps_bind ha
  intro found hfound
  cases found with
  | none => exact hp
  | some found =>
    obtain ⟨op, token⟩ := found
    have ht := (hfound op token rfl).2
    apply keeps_bind (nested_keeps operand_exprRules ih ht)
    intro operand ho
    exact keeps_pure ho

theorem accept_tier_keeps (tier : Tier) :
    I.Keeps (Rule.accept? tier.op?) (I.Accepted tier.op?) := by
  refine keeps_accept fun hts hi => I.remaining_tail hts ?_
  rw [← (Tier.op?_eq_some_iff.mp hi).2]
  exact BinaryOp.inExpression_kind _

theorem chain_bounded {tier : Tier} (ho : tier.operand.Bounded I room) (count : Nat) {left : Expr}
    (hl : left.nesting ≤ room) :
    I.Keeps (chainRule tier.op? (tier.operand.rule (innerRules room)) count left) fun e =>
      e.nesting ≤ room := by
  induction count generalizing left with
  | zero => exact keeps_pure hl
  | succ count ih =>
    apply keeps_bind (accept_tier_keeps tier)
    intro found hfound
    cases found with
    | none => exact keeps_pure hl
    | some found =>
      apply keeps_bind ho
      intro right hr
      exact ih (Nat.max_le.mpr ⟨hl, hr⟩)

theorem operation_bounded (tier : Tier) (ho : tier.operand.Bounded I room) :
    (Nonterminal.operation tier).Bounded I room := by
  rw [Nonterminal.Bounded, Nonterminal.rule_operation]
  apply keeps_bind ho
  intro first hf ts hts
  exact chain_bounded ho ts.length hf ts hts

theorem assignRule_keeps {left value : Expr} {equals : Token} (hl : left.nesting ≤ room)
    (hv : value.nesting < room) (he : I.taken equals) (hk : equals.kind = .equal) :
    I.Keeps (assignRule left equals value) fun e => e.nesting ≤ room := by
  have hreport : I.Keeps (Rule.report .invalidTarget equals) fun _ => True :=
    keeps_report (I.reported_target he hk)
  cases left with
  | «variable» name => exact keeps_pure hv
  | _ => exact keeps_bind hreport fun _ _ => keeps_pure hl

theorem assignment_bounded (ih : ∀ r, room = r + 1 → Nonterminal.assignment.Bounded I r)
    (he : (Nonterminal.operation .equality).Bounded I room) :
    Nonterminal.assignment.Bounded I room := by
  apply keeps_bind he
  intro left hl
  have ha : I.Keeps (Rule.accept? (only .equal)) (I.Accepted (only .equal)) := by
    refine keeps_accept fun hts hi => I.remaining_tail hts ?_
    rw [only_eq_some_iff.mp hi]
    rfl
  apply keeps_bind ha
  intro found hfound
  cases found with
  | none => exact keeps_pure hl
  | some found =>
    obtain ⟨u, equals⟩ := found
    have ht := hfound u equals rfl
    apply keeps_bind (nested_keeps expression_exprRules ih ht.2)
    intro value hv
    exact assignRule_keeps hl hv ht.2 (only_eq_some_iff.mp ht.1)

theorem nonterminals_bounded (I : ExpressionInvariant) (room : Nat) :
    Nonterminal.unary.Bounded I room ∧ Nonterminal.assignment.Bounded I room := by
  induction room using Nat.strongRecOn with
  | ind room ih =>
    have hp : Nonterminal.primary.Bounded I room := primary_bounded fun r hr => (ih r (by omega)).2
    have hu : Nonterminal.unary.Bounded I room := unary_bounded (fun r hr => (ih r (by omega)).1) hp
    have he : (Nonterminal.operation .equality).Bounded I room :=
      operation_bounded .equality (operation_bounded .comparison
        (operation_bounded .term (operation_bounded .factor hu)))
    exact ⟨hu, assignment_bounded (fun r hr => (ih r (by omega)).2) he⟩

theorem expressionRule_keeps (I : ExpressionInvariant) (room : Nat) :
    I.Keeps (expressionRule room) fun e => e.nesting ≤ room := by
  rw [expressionRule, expression_exprRules]
  exact (nonterminals_bounded I room).2

end Expressions

/-- What holds while a program is read. Statements take tokens of all kinds, and after an error any
token may be passed over. -/
structure ProgramInvariant extends ExpressionInvariant where
  remaining_drop : ∀ {t : Token} {ts : List Token}, remaining (t :: ts) → remaining ts
  reported_name : ∀ {t : Token}, taken t → reported ⟨⟨.redeclared t.lexeme, some t⟩, none⟩
  reported_stop : ∀ {e : SyntaxError} {recovery : Recovery}, stopped e →
    reported ⟨e, some recovery⟩

section Statements

variable {I : ProgramInvariant} {room : Nat} {inner : Option (Rule (List Stmt))}

theorem expect_keeps (kind : TokenKind) (fault : SyntaxFault) :
    I.Keeps (Rule.expect kind fault) fun t => t.kind = kind ∧ I.taken t :=
  keeps_expect fun hts _ => I.remaining_drop hts

theorem terminated_keeps {kind : TokenKind} {fault : SyntaxFault} {rule : Rule α} {f : α → β}
    {P : α → Prop} {Q : β → Prop} (h : I.Keeps rule P) (hf : ∀ a, P a → Q (f a)) :
    I.Keeps (do
      let a ← rule
      let _ ← Rule.expect kind fault
      return f a) Q := by
  apply keeps_bind h
  intro a ha
  apply keeps_bind (expect_keeps kind fault)
  intro t _
  exact keeps_pure (hf a ha)

theorem printRule_keeps (keyword : Token) :
    I.Keeps (printRule room keyword) fun stmt => stmt.nesting ≤ room :=
  terminated_keeps (expressionRule_keeps _ room) fun e he => by rwa [Stmt.nesting]

theorem expressionStatementRule_keeps :
    I.Keeps (expressionStatementRule room) fun stmt => stmt.nesting ≤ room :=
  terminated_keeps (expressionRule_keeps _ room) fun e he => by rwa [Stmt.nesting]

theorem initializerRule_keeps (name : Token) :
    I.Keeps (initializerRule room) fun initializer =>
      (Stmt.var name initializer).nesting ≤ room := by
  have ha : I.Keeps (Rule.accept? (only .equal)) (I.Accepted (only .equal)) :=
    keeps_accept fun hts _ => I.remaining_drop hts
  apply keeps_bind ha
  intro found hfound
  cases found with
  | none => exact keeps_pure (by simp [Stmt.nesting])
  | some found =>
    apply keeps_bind (expressionRule_keeps _ room)
    intro e he
    exact keeps_pure (by rwa [Stmt.nesting])

theorem freshNameRule_keeps (declared : List String) {name : Token} (hn : I.taken name) :
    I.Keeps (freshNameRule declared name) fun _ => True := by
  unfold freshNameRule
  split
  · exact keeps_report (I.reported_name hn)
  · exact keeps_pure trivial

theorem varRule_keeps (declared : List String) :
    I.Keeps (varRule room declared) fun stmt => stmt.nesting ≤ room := by
  apply keeps_bind (expect_keeps _ _)
  intro name hn
  apply keeps_bind (freshNameRule_keeps declared hn.2)
  intro _ _
  exact terminated_keeps (initializerRule_keeps name) fun _ hi => hi

theorem blockStatementRule_keeps
    (hinner : ∀ rule ∈ inner, I.Keeps rule fun body => Stmt.listNesting body < room)
    {brace : Token} (hb : I.taken brace) :
    I.Keeps (blockStatementRule inner brace) fun stmt => stmt.nesting ≤ room := by
  apply keeps_bind (keeps_nested hb hinner)
  intro body hbody
  exact keeps_pure (by rwa [Stmt.nesting])

theorem declarationRule_keeps
    (hinner : ∀ rule ∈ inner, I.Keeps rule fun body => Stmt.listNesting body < room)
    (declared : List String) :
    I.Keeps (declarationRule room inner declared) fun stmt => stmt.nesting ≤ room := by
  intro ts hts
  cases ts with
  | nil => exact expressionStatementRule_keeps [] hts
  | cons t ts =>
    rw [declarationRule]
    split
    · exact varRule_keeps declared ts (I.remaining_drop hts)
    · exact printRule_keeps t ts (I.remaining_drop hts)
    · exact blockStatementRule_keeps hinner (I.taken_head hts) ts (I.remaining_drop hts)
    · exact expressionStatementRule_keeps (t :: ts) hts

theorem remaining_resume {ts : List Token} (h : I.remaining ts) : I.remaining (resume ts) := by
  induction ts with
  | nil => exact h
  | cons t ts ih =>
    have htail := I.remaining_drop h
    rw [resume]
    split
    · exact htail
    · exact ih htail

theorem recovering_holds {rule : Rule Stmt} (h : I.Keeps rule fun stmt => stmt.nesting ≤ room)
    {ts : List Token} (hts : I.remaining ts) :
    I.Holds (recovering rule ts) fun stmt => Stmt.listNesting stmt.toList ≤ room := by
  have hr := h ts hts
  unfold recovering
  split
  · rename_i stmt reports rest he
    rw [he] at hr
    exact ⟨hr.remaining, hr.reported, Nat.max_le.mpr ⟨hr.value, Nat.zero_le _⟩⟩
  · rename_i e reports rest he
    rw [he] at hr
    refine ⟨remaining_resume hr.remaining, ?_, Nat.zero_le _⟩
    exact List.forall_mem_append.mpr
      ⟨hr.reported, List.forall_mem_singleton.mpr (I.reported_stop hr.value)⟩

theorem listNesting_append (xs ys : List Stmt) :
    Stmt.listNesting (xs ++ ys) = max (Stmt.listNesting xs) (Stmt.listNesting ys) := by
  induction xs with
  | nil => simp [Stmt.listNesting]
  | cons x xs ih => rw [List.cons_append, Stmt.listNesting, Stmt.listNesting, ih, Nat.max_assoc]

theorem scopeReading_holds {declaration : List String → Rule Stmt}
    (h : ∀ declared, I.Keeps (declaration declared) fun stmt => stmt.nesting ≤ room)
    (stops : TokenKind → Bool) (count : Nat) (declared : List String) {ts : List Token}
    (hts : I.remaining ts) :
    I.Holds (scopeReading declaration stops count declared ts) fun stmts =>
      Stmt.listNesting stmts ≤ room := by
  induction count generalizing declared ts with
  | zero => exact ⟨hts, List.forall_mem_nil _, Nat.zero_le _⟩
  | succ count ih =>
    cases ts with
    | nil => exact ⟨hts, List.forall_mem_nil _, Nat.zero_le _⟩
    | cons t ts =>
      have hfirst := recovering_holds (h declared) hts
      have hothers := ih (((recovering (declaration declared) (t :: ts)).value.bind
        Stmt.declares).toList ++ declared) hfirst.remaining
      rw [scopeReading]
      split
      · exact ⟨hts, List.forall_mem_nil _, Nat.zero_le _⟩
      · refine ⟨hothers.remaining,
          List.forall_mem_append.mpr ⟨hfirst.reported, hothers.reported⟩, ?_⟩
        rw [listNesting_append]
        exact Nat.max_le.mpr ⟨hfirst.value, hothers.value⟩

theorem innerBlockRule_keeps (I : ProgramInvariant) (room : Nat) :
    ∀ rule ∈ innerBlockRule room, I.Keeps rule fun body => Stmt.listNesting body < room := by
  induction room with
  | zero =>
    intro rule hrule
    cases hrule
  | succ room ih =>
    intro rule hrule
    cases hrule
    have hbody : I.Keeps (bodyRule room (innerBlockRule room)) fun body =>
        Stmt.listNesting body ≤ room := by
      intro ts hts
      have hs := scopeReading_holds (declarationRule_keeps ih) (· = .rightBrace) ts.length [] hts
      exact ⟨hs.remaining, hs.reported, hs.value⟩
    exact terminated_keeps hbody fun body hb => Nat.lt_succ_of_le hb

theorem declaration_keeps (I : ProgramInvariant) (room : Nat) (declared : List String) :
    I.Keeps (declarationRule room (innerBlockRule room) declared) fun stmt => stmt.nesting ≤ room :=
  declarationRule_keeps (innerBlockRule_keeps I room) declared

theorem programReading_holds (I : ProgramInvariant) {ts : List Token} (hts : I.remaining ts) :
    I.Holds (programReading ts) fun stmts => Stmt.listNesting stmts ≤ maxNesting :=
  scopeReading_holds (declaration_keeps I maxNesting) (fun _ => false) ts.length [] hts

end Statements

/-- Reading passes over the tokens from the front, and an error stands at one of them or at the
end. -/
def textInvariant (ts : List Token) : ProgramInvariant where
  remaining rest := rest <:+ ts
  taken t := t ∈ ts
  stopped e := ∀ t ∈ e.place, t ∈ ts
  reported r := ∀ t ∈ r.error.place, t ∈ ts
  taken_head h := h.subset List.mem_cons_self
  remaining_tail h _ := (List.suffix_cons _ _).trans h
  stopped_here _ h := fun _ ht => h.subset (List.mem_of_mem_head? ht)
  stopped_opener h := fun _ ht => by
    cases ht
    exact h
  reported_target h _ := fun _ ht => by
    cases ht
    exact h
  remaining_drop h := (List.suffix_cons _ _).trans h
  reported_name h := fun _ ht => by
    cases ht
    exact h
  reported_stop h := h

theorem listNesting_parse_le (ts : List Token) :
    Stmt.listNesting (parse ts).statements ≤ maxNesting :=
  (programReading_holds (textInvariant _) (List.suffix_refl _)).value

end Treewalk
