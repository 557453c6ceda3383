import Treewalk.Proofs.Grammar.Scopes
import Treewalk.Proofs.Lexing.Lines

/-! Reading does not look at places. Tokens that are moved are read as they were, with and without
errors, and the places that statements and reports keep are moved with them. -/

namespace Treewalk

section Trees

variable (f : Move)

def Expr.move : Expr → Expr
  | .literal value => .literal value
  | .grouping inner => .grouping inner.move
  | .unary op token operand => .unary op (token.move f) operand.move
  | .binary op token left right => .binary op (token.move f) left.move right.move
  | .variable name => .variable (name.move f)
  | .assign name value => .assign (name.move f) value.move

mutual

def Stmt.move : Stmt → Stmt
  | .expression expr => .expression (expr.move f)
  | .print keyword expr => .print (keyword.move f) (expr.move f)
  | .var name initializer => .var (name.move f) (initializer.map (Expr.move f))
  | .block body => .block (Stmt.listMove body)

def Stmt.listMove : List Stmt → List Stmt
  | [] => []
  | stmt :: rest => stmt.move :: Stmt.listMove rest

end

def SyntaxError.move (e : SyntaxError) : SyntaxError :=
  { e with place := e.place.map (Token.move f) }

def Recovery.move (r : Recovery) : Recovery :=
  { r with next := r.next.map (Token.move f) }

def SyntaxReport.move (r : SyntaxReport) : SyntaxReport where
  error := r.error.move f
  recovery := r.recovery.map (Recovery.move f)

theorem Stmt.listMove_eq_map (stmts : List Stmt) : Stmt.listMove f stmts = stmts.map (Stmt.move f) := by
  induction stmts with
  | nil => rfl
  | cons stmt rest ih => rw [Stmt.listMove, ih, List.map_cons]

@[simp]
theorem Stmt.declares_move (stmt : Stmt) : (stmt.move f).declares = stmt.declares := by
  cases stmt <;> simp [Stmt.move, Stmt.declares]

end Trees

section Rules

variable {α β : Type} {f : Move} {g : α → α} {g' : β → β}

def Reading.move (f : Move) (g : α → α) (r : Reading α) : Reading α where
  value := g r.value
  reports := r.reports.map (SyntaxReport.move f)
  rest := r.rest.map (Token.move f)

def moveResult (f : Move) (g : α → α) : Except SyntaxError α → Except SyntaxError α
  | .ok a => .ok (g a)
  | .error e => .error (e.move f)

/-- On moved tokens the second rule reads what the first one reads, moved. They are the same rule but
for tokens that it was given. -/
def Rule.MovesTo (f : Move) (rule rule' : Rule α) (g : α → α) : Prop :=
  ∀ ts, rule' (ts.map (Token.move f)) = (rule ts).move f (moveResult f g)

theorem moves_pure (f : Move) (g : α → α) (a : α) : Rule.MovesTo f (pure a) (pure (g a)) g :=
  fun _ => rfl

theorem moves_bind {rule rule' : Rule α} {next next' : α → Rule β} (h : rule.MovesTo f rule' g)
    (hnext : ∀ a, (next a).MovesTo f (next' (g a)) g') :
    (rule >>= next).MovesTo f (rule' >>= next') g' := by
  intro ts
  have hrule := h ts
  have hbind : (rule >>= next) ts = rule.bind next ts := rfl
  have hbind' : (rule' >>= next') (ts.map (Token.move f)) =
    rule'.bind next' (ts.map (Token.move f)) := rfl
  rcases he : rule ts with ⟨result, reports, rest⟩
  rw [he] at hrule
  cases result with
  | error e =>
    rw [hbind, hbind', Rule.bind_error he, Rule.bind_error hrule]
    rfl
  | ok a =>
    rw [hbind, hbind', Rule.bind_ok he, Rule.bind_ok hrule, hnext a rest]
    simp [Reading.move]

theorem moves_failHere (f : Move) (g : α → α) (fault : SyntaxFault) :
    (Rule.failHere fault).MovesTo f (Rule.failHere fault) g := by
  intro ts
  simp [Rule.failHere, Rule.fail, Reading.move, moveResult, SyntaxError.move]

theorem moves_report (f : Move) (fault : SyntaxFault) (place : Token) :
    (Rule.report fault place).MovesTo f (Rule.report fault (place.move f)) id :=
  fun _ => rfl

theorem moves_accept (f : Move) (image : TokenKind → Option α) :
    (Rule.accept? image).MovesTo f (Rule.accept? image)
      (Option.map (Prod.map id (Token.move f))) := by
  intro ts
  cases ts with
  | nil => rfl
  | cons t ts =>
    cases hi : image t.kind <;> simp [Rule.accept?, hi, Reading.move, moveResult]

theorem moves_expect (f : Move) (kind : TokenKind) (fault : SyntaxFault) :
    (Rule.expect kind fault).MovesTo f (Rule.expect kind fault) (Token.move f) := by
  apply moves_bind (moves_accept f (only kind))
  intro found
  cases found with
  | none => exact moves_failHere f _ fault
  | some found => exact moves_pure f _ found.2

theorem moves_nested {inner : Option (Rule α)} (h : ∀ rule ∈ inner, rule.MovesTo f rule g)
    (opener : Token) :
    (Rule.nested opener inner).MovesTo f (Rule.nested (opener.move f) inner) g := by
  cases inner with
  | none => exact fun _ => rfl
  | some rule => exact h rule rfl

theorem moves_terminated {rule rule' : Rule α} {make make' : α → β} {kind : TokenKind}
    {fault : SyntaxFault} (h : rule.MovesTo f rule' g) (hmake : ∀ a, make' (g a) = g' (make a)) :
    (do
      let a ← rule
      let _ ← Rule.expect kind fault
      return make a).MovesTo f (do
        let a ← rule'
        let _ ← Rule.expect kind fault
        return make' a) g' := by
  apply moves_bind h
  intro a
  apply moves_bind (moves_expect f kind fault)
  intro t
  rw [hmake a]
  exact moves_pure f g' (make a)

end Rules

section Expressions

variable {f : Move} {room : Nat}

def Nonterminal.Moves (f : Move) (room : Nat) (n : Nonterminal) : Prop :=
  (n.rule (innerRules room)).MovesTo f (n.rule (innerRules room)) (Expr.move f)

theorem nested_moves {field : ExprRules → Rule Expr} {n : Nonterminal}
    (hfield : ∀ r, field (exprRules r) = n.rule (innerRules r))
    (ih : ∀ r, room = r + 1 → n.Moves f r) (opener : Token) :
    (Rule.nested opener ((innerRules room).map field)).MovesTo f
      (Rule.nested (opener.move f) ((innerRules room).map field)) (Expr.move f) := by
  apply moves_nested
  intro rule hrule
  cases room with
  | zero => cases hrule
  | succ r =>
    cases hrule
    rw [hfield]
    exact ih r rfl

theorem atom?_move (f : Move) (t : Token) : atom? (t.move f) = (atom? t).map (Expr.move f) := by
  unfold atom?
  rw [Token.kind_move]
  split <;> rfl

theorem primary_moves (ih : ∀ r, room = r + 1 → Nonterminal.assignment.Moves f r) :
    Nonterminal.primary.Moves f room := by
  intro ts
  cases ts with
  | nil => exact moves_failHere f _ .expectExpression []
  | cons t ts =>
    have hgroup : (groupingRule (innerRules room) t).MovesTo f
        (groupingRule (innerRules room) (t.move f)) (Expr.move f) :=
      moves_terminated (nested_moves expression_exprRules ih t) fun _ => rfl
    rw [List.map_cons, Nonterminal.rule, primaryRule, primaryRule, atom?_move, Token.kind_move]
    cases hatom : atom? t with
    | some e => rfl
    | none =>
      by_cases hk : t.kind = .leftParen
      · simp only [Option.map_none, if_pos hk]
        exact hgroup ts
      · simp only [Option.map_none, if_neg hk]
        exact moves_failHere f _ .expectExpression (t :: ts)

theorem unary_moves (ih : ∀ r, room = r + 1 → Nonterminal.unary.Moves f r)
    (hp : Nonterminal.primary.Moves f room) : Nonterminal.unary.Moves f room := by
  apply moves_bind (moves_accept f unaryOp?)
  intro found
  cases found with
  | none => exact hp
  | some found =>
    apply moves_bind (nested_moves operand_exprRules ih found.2)
    intro operand
    exact moves_pure f (Expr.move f) (.unary found.1 found.2 operand)

theorem chain_moves {tier : Tier} (ho : tier.operand.Moves f room) (count : Nat) (left : Expr) :
    (chainRule tier.op? (tier.operand.rule (innerRules room)) count left).MovesTo f
      (chainRule tier.op? (tier.operand.rule (innerRules room)) count (left.move f))
      (Expr.move f) := by
  induction count generalizing left with
  | zero => exact moves_pure f _ left
  | succ count ih =>
    apply moves_bind (moves_accept f tier.op?)
    intro found
    cases found with
    | none => exact moves_pure f _ left
    | some found =>
      apply moves_bind ho
      intro right
      exact ih (.binary found.1 found.2 left right)

theorem operation_moves (tier : Tier) (ho : tier.operand.Moves f room) :
    (Nonterminal.operation tier).Moves f room := by
  rw [Nonterminal.Moves, Nonterminal.rule_operation]
  apply moves_bind ho
  intro first ts
  show chainRule tier.op? (tier.operand.rule (innerRules room)) (ts.map (Token.move f)).length
    (first.move f) (ts.map (Token.move f)) = _
  rw [List.length_map]
  exact chain_moves ho ts.length first ts

theorem assignRule_moves (f : Move) (left value : Expr) (equals : Token) :
    (assignRule left equals value).MovesTo f (assignRule (left.move f) (equals.move f) (value.move f))
      (Expr.move f) := by
  cases left with
  | «variable» name => exact moves_pure f (Expr.move f) (.assign name value)
  | literal _ | grouping _ | unary _ _ _ | binary _ _ _ _ | assign _ _ =>
    exact moves_bind (moves_report f .invalidTarget equals) fun _ => moves_pure f _ _

theorem assignment_moves (ih : ∀ r, room = r + 1 → Nonterminal.assignment.Moves f r)
    (he : (Nonterminal.operation .equality).Moves f room) :
    Nonterminal.assignment.Moves f room := by
  apply moves_bind he
  intro left
  apply moves_bind (moves_accept f (only .equal))
  intro found
  cases found with
  | none => exact moves_pure f _ left
  | some found =>
    apply moves_bind (nested_moves expression_exprRules ih found.2)
    intro value
    exact assignRule_moves f left value found.2

theorem nonterminals_move (f : Move) (room : Nat) :
    Nonterminal.unary.Moves f room ∧ Nonterminal.assignment.Moves f room := by
  induction room using Nat.strongRecOn with
  | ind room ih =>
    have hp : Nonterminal.primary.Moves f room := primary_moves fun r hr => (ih r (by omega)).2
    have hu : Nonterminal.unary.Moves f room := unary_moves (fun r hr => (ih r (by omega)).1) hp
    have he : (Nonterminal.operation .equality).Moves f room :=
      operation_moves .equality (operation_moves .comparison
        (operation_moves .term (operation_moves .factor hu)))
    exact ⟨hu, assignment_moves (fun r hr => (ih r (by omega)).2) he⟩

theorem expressionRule_moves (f : Move) (room : Nat) :
    (expressionRule room).MovesTo f (expressionRule room) (Expr.move f) := by
  rw [expressionRule, expression_exprRules]
  exact (nonterminals_move f room).2

end Expressions

section Statements

variable {f : Move} {room : Nat} {inner : Option (Rule (List Stmt))}

theorem printRule_moves (f : Move) (room : Nat) (keyword : Token) :
    (printRule room keyword).MovesTo f (printRule room (keyword.move f)) (Stmt.move f) :=
  moves_terminated (expressionRule_moves f room) fun _ => rfl

theorem expressionStatementRule_moves (f : Move) (room : Nat) :
    (expressionStatementRule room).MovesTo f (expressionStatementRule room) (Stmt.move f) :=
  moves_terminated (expressionRule_moves f room) fun _ => rfl

theorem initializerRule_moves (f : Move) (room : Nat) :
    (initializerRule room).MovesTo f (initializerRule room) (Option.map (Expr.move f)) := by
  apply moves_bind (moves_accept f (only .equal))
  intro found
  cases found with
  | none => exact moves_pure f (Option.map (Expr.move f)) none
  | some found =>
    apply moves_bind (expressionRule_moves f room)
    intro e
    exact moves_pure f (Option.map (Expr.move f)) (some e)

theorem freshNameRule_moves (f : Move) (declared : List String) (name : Token) :
    (freshNameRule declared name).MovesTo f (freshNameRule declared (name.move f)) id := by
  rw [freshNameRule, freshNameRule, Token.lexeme_move]
  split
  · exact moves_report f _ name
  · exact moves_pure f id ()

theorem varRule_moves (f : Move) (room : Nat) (declared : List String) :
    (varRule room declared).MovesTo f (varRule room declared) (Stmt.move f) := by
  apply moves_bind (moves_expect f .identifier .expectName)
  intro name
  apply moves_bind (freshNameRule_moves f declared name)
  intro _
  exact moves_terminated (initializerRule_moves f room) fun _ => rfl

theorem blockStatementRule_moves
    (hinner : ∀ rule ∈ inner, rule.MovesTo f rule (Stmt.listMove f)) (brace : Token) :
    (blockStatementRule inner brace).MovesTo f (blockStatementRule inner (brace.move f))
      (Stmt.move f) := by
  apply moves_bind (moves_nested hinner brace)
  intro body
  exact moves_pure f (Stmt.move f) (.block body)

theorem declarationRule_moves (hinner : ∀ rule ∈ inner, rule.MovesTo f rule (Stmt.listMove f))
    (declared : List String) :
    (declarationRule room inner declared).MovesTo f (declarationRule room inner declared)
      (Stmt.move f) := by
  intro ts
  cases ts with
  | nil => exact expressionStatementRule_moves f room []
  | cons t ts =>
    rw [List.map_cons, declarationRule, declarationRule, Token.kind_move]
    split
    · exact varRule_moves f room declared ts
    · exact printRule_moves f room t ts
    · exact blockStatementRule_moves hinner t ts
    · exact expressionStatementRule_moves f room (t :: ts)

theorem resume_move (f : Move) (ts : List Token) :
    resume (ts.map (Token.move f)) = (resume ts).map (Token.move f) := by
  induction ts with
  | nil => rfl
  | cons t ts ih =>
    have hhead : (ts.map (Token.move f)).head?.any (·.kind.startsStatement) =
        ts.head?.any (·.kind.startsStatement) := by cases ts <;> rfl
    rw [List.map_cons, resume, resume, hhead, Token.kind_move, ih]
    split <;> rfl

theorem recovering_move {rule : Rule Stmt} (h : rule.MovesTo f rule (Stmt.move f))
    (ts : List Token) :
    recovering rule (ts.map (Token.move f)) =
      (recovering rule ts).move f (Option.map (Stmt.move f)) := by
  rw [recovering, recovering, h ts]
  rcases rule ts with ⟨result, reports, rest⟩
  cases result with
  | ok stmt => rfl
  | error e =>
    simp [Reading.move, moveResult, resume_move, SyntaxReport.move, Recovery.move]

theorem scopeReading_move {declaration : List String → Rule Stmt}
    (h : ∀ declared, (declaration declared).MovesTo f (declaration declared) (Stmt.move f))
    (stops : TokenKind → Bool) (count : Nat) (declared : List String) (ts : List Token) :
    scopeReading declaration stops count declared (ts.map (Token.move f)) =
      (scopeReading declaration stops count declared ts).move f (Stmt.listMove f) := by
  induction count generalizing declared ts with
  | zero => rfl
  | succ count ih =>
    cases ts with
    | nil => rfl
    | cons t ts =>
      have hfirst := recovering_move (h declared) (t :: ts)
      rw [List.map_cons] at hfirst ⊢
      rw [scopeReading, scopeReading, Token.kind_move, hfirst]
      rcases recovering (declaration declared) (t :: ts) with ⟨stmt, reports, rest⟩
      split
      · rfl
      · cases stmt <;> simp [Reading.move, ih, Stmt.listMove_eq_map]

theorem innerBlockRule_moves (f : Move) (room : Nat) :
    ∀ rule ∈ innerBlockRule room, rule.MovesTo f rule (Stmt.listMove f) := by
  induction room with
  | zero =>
    intro rule hrule
    cases hrule
  | succ room ih =>
    intro rule hrule
    cases hrule
    have hbody : (bodyRule room (innerBlockRule room)).MovesTo f
        (bodyRule room (innerBlockRule room)) (Stmt.listMove f) := by
      intro ts
      have hdeclaration : ∀ declared, (declarationRule room (innerBlockRule room) declared).MovesTo f
          (declarationRule room (innerBlockRule room) declared) (Stmt.move f) :=
        declarationRule_moves ih
      have hscope := scopeReading_move hdeclaration (· = .rightBrace) ts.length [] ts
      rw [bodyRule, bodyRule, scopeOf, List.length_map, hscope]
      rfl
    exact moves_terminated hbody fun _ => rfl

theorem programReading_move (f : Move) (ts : List Token) :
    programReading (ts.map (Token.move f)) = (programReading ts).move f (Stmt.listMove f) := by
  rw [programReading, scopeOf, List.length_map]
  exact scopeReading_move (declarationRule_moves (innerBlockRule_moves f maxNesting)) _ _ _ _

end Statements

end Treewalk
