import Mathlib.Data.List.NodupEquivFin
import Treewalk.Proofs.Grammar.Scopes

/-! The tokens that a tree keeps, in the order in which they stand in the text. Reading keeps them in
that order, with or without errors: nothing is invented, used twice or moved, and what is dropped
leaves the order of the rest as it is. -/

namespace Treewalk

/-- The tokens that an expression keeps, as they stand in the text. -/
def Expr.tokens : Expr → List Token
  | .literal _ => []
  | .grouping inner => inner.tokens
  | .unary _ token operand => token :: operand.tokens
  | .binary _ token left right => left.tokens ++ token :: right.tokens
  | .variable name => [name]
  | .assign name value => name :: value.tokens

mutual

def Stmt.tokens : Stmt → List Token
  | .expression expr => expr.tokens
  | .print keyword expr => keyword :: expr.tokens
  | .var name none => [name]
  | .var name (some initializer) => name :: initializer.tokens
  | .block body => Stmt.listTokens body

def Stmt.listTokens : List Stmt → List Token
  | [] => []
  | stmt :: rest => stmt.tokens ++ Stmt.listTokens rest

end

theorem Stmt.listTokens_append (xs ys : List Stmt) :
    Stmt.listTokens (xs ++ ys) = Stmt.listTokens xs ++ Stmt.listTokens ys := by
  induction xs with
  | nil => rfl
  | cons x xs ih => rw [List.cons_append, Stmt.listTokens, Stmt.listTokens, ih, List.append_assoc]

section Rules

variable {α β : Type} {view : α → List Token} {held : List Token}

/-- The tokens of a result; an error keeps none. -/
def keptTokens (view : α → List Token) : Except SyntaxError α → List Token
  | .ok a => view a
  | .error _ => []

/-- When the tokens `held` are already taken, what the rule makes of them and of the tokens in front
of it stands in their order, and before the tokens that it leaves. -/
def Rule.Ordered (rule : Rule α) (held : List Token) (view : α → List Token) : Prop :=
  ∀ ts, (keptTokens view (rule ts).value ++ (rule ts).rest).Sublist (held ++ ts)

theorem ordered_pure {a : α} (h : (view a).Sublist held) : (pure a : Rule α).Ordered held view :=
  fun ts => h.append_right ts

theorem ordered_bind {rule : Rule α} {next : α → Rule β} {view' : β → List Token}
    (h : rule.Ordered held view) (hnext : ∀ a, (next a).Ordered (view a) view') :
    (rule >>= next).Ordered held view' := by
  intro ts
  have hrule := h ts
  have hbind : (rule >>= next) ts = rule.bind next ts := rfl
  rcases he : rule ts with ⟨result, before, mid⟩
  rw [he] at hrule
  cases result with
  | error e =>
    rw [hbind, Rule.bind_error he]
    exact hrule
  | ok a =>
    rw [hbind, Rule.bind_ok he]
    exact (hnext a mid).trans hrule

theorem Rule.Ordered.frame {rule : Rule α} (h : rule.Ordered [] view) (held : List Token) :
    rule.Ordered held fun a => held ++ view a := by
  intro ts
  have hrule : (keptTokens view (rule ts).value ++ (rule ts).rest).Sublist ts := h ts
  cases hv : (rule ts).value with
  | ok a =>
    rw [hv] at hrule
    have hheld := hrule.append_left held
    rwa [← List.append_assoc] at hheld
  | error e =>
    rw [hv] at hrule
    exact hrule.trans (List.sublist_append_right held ts)

theorem Rule.Ordered.mono {rule : Rule α} {view' : α → List Token} (h : rule.Ordered held view)
    (hview : ∀ a, (view' a).Sublist (view a)) : rule.Ordered held view' := by
  intro ts
  have hrule := h ts
  cases hv : (rule ts).value with
  | ok a =>
    rw [hv] at hrule
    exact ((hview a).append_right _).trans hrule
  | error e =>
    rw [hv] at hrule
    exact hrule

theorem ordered_failHere (fault : SyntaxFault) :
    (Rule.failHere fault : Rule α).Ordered held view :=
  fun ts => List.sublist_append_right held ts

theorem ordered_report (fault : SyntaxFault) (place : Token) :
    (Rule.report fault place).Ordered held fun _ => held :=
  fun ts => List.Sublist.refl (held ++ ts)

/-- The token of what was accepted, behind those that were taken before. -/
def acceptedTokens (held : List Token) (found : Option (α × Token)) : List Token :=
  held ++ (found.map Prod.snd).toList

theorem ordered_accept (image : TokenKind → Option α) (held : List Token) :
    (Rule.accept? image).Ordered held (acceptedTokens held) := by
  intro ts
  cases ts with
  | nil => simp [Rule.accept?, keptTokens, acceptedTokens]
  | cons t ts => cases hi : image t.kind <;> simp [Rule.accept?, hi, keptTokens, acceptedTokens]

theorem ordered_expect (kind : TokenKind) (fault : SyntaxFault) (held : List Token) :
    (Rule.expect kind fault).Ordered held fun t => held ++ [t] := by
  apply ordered_bind (ordered_accept (only kind) held)
  intro found
  cases found with
  | none => exact ordered_failHere fault
  | some found => exact ordered_pure (List.Sublist.refl _)

/-- A token that is not kept may be taken at any time. -/
theorem ordered_expect_drop (kind : TokenKind) (fault : SyntaxFault) (held : List Token) :
    (Rule.expect kind fault).Ordered held fun _ => held :=
  (ordered_expect kind fault held).mono fun t => List.sublist_append_left held [t]

theorem ordered_nested {opener : Token} {inner : Option (Rule α)}
    (h : ∀ rule ∈ inner, rule.Ordered held view) : (Rule.nested opener inner).Ordered held view := by
  cases inner with
  | none => exact fun ts => List.sublist_append_right held ts
  | some rule => exact h rule rfl

theorem ordered_terminated {rule : Rule α} {f : α → β} {kind : TokenKind} {fault : SyntaxFault}
    {view' : β → List Token} (h : rule.Ordered held view)
    (hview : ∀ a, (view' (f a)).Sublist (view a)) :
    (do
      let a ← rule
      let _ ← Rule.expect kind fault
      return f a).Ordered held view' := by
  apply ordered_bind h
  intro a
  apply ordered_bind (ordered_expect_drop kind fault (view a))
  intro t
  exact ordered_pure (hview a)

end Rules

section Expressions

variable {room : Nat}

def Nonterminal.Ordered (room : Nat) (n : Nonterminal) : Prop :=
  (n.rule (innerRules room)).Ordered [] Expr.tokens

theorem nested_ordered {field : ExprRules → Rule Expr} {n : Nonterminal}
    (hfield : ∀ r, field (exprRules r) = n.rule (innerRules r))
    (ih : ∀ r, room = r + 1 → n.Ordered r) (opener : Token) :
    (Rule.nested opener ((innerRules room).map field)).Ordered [] Expr.tokens := by
  apply ordered_nested
  intro rule hrule
  cases room with
  | zero => cases hrule
  | succ r =>
    cases hrule
    rw [hfield]
    exact ih r rfl

theorem atom?_tokens_sublist {t : Token} {e : Expr} (h : atom? t = some e) :
    e.tokens.Sublist [t] := by
  obtain ⟨a, rfl, rfl⟩ := exists_atom_of_atom? h
  cases a with
  | name t => exact List.Sublist.refl _
  | number _ | string _ | true _ | false _ | nil _ => exact List.nil_sublist _

theorem groupingRule_ordered (ih : ∀ r, room = r + 1 → Nonterminal.assignment.Ordered r)
    (paren : Token) : (groupingRule (innerRules room) paren).Ordered [] Expr.tokens :=
  ordered_terminated (nested_ordered expression_exprRules ih paren) fun e => List.Sublist.refl e.tokens

theorem primary_ordered (ih : ∀ r, room = r + 1 → Nonterminal.assignment.Ordered r) :
    Nonterminal.primary.Ordered room := by
  intro ts
  cases ts with
  | nil => exact ordered_failHere .expectExpression []
  | cons t ts =>
    rw [Nonterminal.rule, primaryRule]
    split
    · rename_i e he
      exact (atom?_tokens_sublist he).append_right ts
    · split
      · have hgroup : (keptTokens _ _ ++ _).Sublist ts := groupingRule_ordered ih t ts
        exact hgroup.trans (List.sublist_cons_self t ts)
      · exact ordered_failHere .expectExpression (t :: ts)

theorem unary_ordered (ih : ∀ r, room = r + 1 → Nonterminal.unary.Ordered r)
    (hp : Nonterminal.primary.Ordered room) : Nonterminal.unary.Ordered room := by
  apply ordered_bind (ordered_accept unaryOp? [])
  intro found
  cases found with
  | none => exact hp
  | some found =>
    obtain ⟨op, token⟩ := found
    apply ordered_bind ((nested_ordered operand_exprRules ih token).frame [token])
    intro operand
    exact ordered_pure (List.Sublist.refl _)

theorem chain_ordered {tier : Tier} (ho : tier.operand.Ordered room) (count : Nat) (left : Expr) :
    (chainRule tier.op? (tier.operand.rule (innerRules room)) count left).Ordered left.tokens
      Expr.tokens := by
  induction count generalizing left with
  | zero => exact ordered_pure (List.Sublist.refl _)
  | succ count ih =>
    apply ordered_bind (ordered_accept tier.op? left.tokens)
    intro found
    cases found with
    | none => exact ordered_pure (List.sublist_append_left left.tokens [])
    | some found =>
      obtain ⟨op, token⟩ := found
      apply ordered_bind (ho.frame (left.tokens ++ [token]))
      intro right
      have hchain := ih (.binary op token left right)
      rwa [Expr.tokens, List.append_cons] at hchain

theorem operation_ordered (tier : Tier) (ho : tier.operand.Ordered room) :
    (Nonterminal.operation tier).Ordered room := by
  rw [Nonterminal.Ordered, Nonterminal.rule_operation]
  apply ordered_bind ho
  intro first ts
  exact chain_ordered ho ts.length first ts

theorem assignRule_ordered (left value : Expr) (equals : Token) :
    (assignRule left equals value).Ordered (left.tokens ++ value.tokens) Expr.tokens := by
  have hleft := List.sublist_append_left left.tokens value.tokens
  cases left with
  | «variable» name => exact ordered_pure (List.Sublist.refl _)
  | literal _ | grouping _ | unary _ _ _ | binary _ _ _ _ | assign _ _ =>
    exact ordered_bind (ordered_report .invalidTarget equals) fun _ => ordered_pure hleft

theorem assignment_ordered (ih : ∀ r, room = r + 1 → Nonterminal.assignment.Ordered r)
    (he : (Nonterminal.operation .equality).Ordered room) :
    Nonterminal.assignment.Ordered room := by
  apply ordered_bind he
  intro left
  -- The sign itself is not kept.
  have ha : (Rule.accept? (only .equal)).Ordered left.tokens fun _ => left.tokens :=
    (ordered_accept (only .equal) left.tokens).mono fun _ => List.sublist_append_left _ _
  apply ordered_bind ha
  intro found
  cases found with
  | none => exact ordered_pure (List.Sublist.refl _)
  | some found =>
    apply ordered_bind ((nested_ordered expression_exprRules ih found.2).frame left.tokens)
    intro value
    exact assignRule_ordered left value found.2

theorem nonterminals_ordered (room : Nat) :
    Nonterminal.unary.Ordered room ∧ Nonterminal.assignment.Ordered room := by
  induction room using Nat.strongRecOn with
  | ind room ih =>
    have hp : Nonterminal.primary.Ordered room := primary_ordered fun r hr => (ih r (by omega)).2
    have hu : Nonterminal.unary.Ordered room := unary_ordered (fun r hr => (ih r (by omega)).1) hp
    have he : (Nonterminal.operation .equality).Ordered room :=
      operation_ordered .equality (operation_ordered .comparison
        (operation_ordered .term (operation_ordered .factor hu)))
    exact ⟨hu, assignment_ordered (fun r hr => (ih r (by omega)).2) he⟩

theorem expressionRule_ordered (room : Nat) : (expressionRule room).Ordered [] Expr.tokens := by
  rw [expressionRule, expression_exprRules]
  exact (nonterminals_ordered room).2

end Expressions

section Statements

variable {room : Nat} {inner : Option (Rule (List Stmt))}

theorem printRule_ordered (room : Nat) (keyword : Token) :
    (printRule room keyword).Ordered [keyword] Stmt.tokens :=
  ordered_terminated ((expressionRule_ordered room).frame [keyword]) fun e =>
    List.Sublist.refl (keyword :: e.tokens)

theorem expressionStatementRule_ordered (room : Nat) :
    (expressionStatementRule room).Ordered [] Stmt.tokens :=
  ordered_terminated (expressionRule_ordered room) fun e => List.Sublist.refl e.tokens

theorem initializerRule_ordered (room : Nat) (name : Token) :
    (initializerRule room).Ordered [name] fun initializer =>
      (Stmt.var name initializer).tokens := by
  have ha : (Rule.accept? (only .equal)).Ordered [name] fun _ => [name] :=
    (ordered_accept (only .equal) [name]).mono fun _ => List.sublist_append_left _ _
  apply ordered_bind ha
  intro found
  cases found with
  | none => exact ordered_pure (List.Sublist.refl [name])
  | some found =>
    apply ordered_bind ((expressionRule_ordered room).frame [name])
    intro e
    exact ordered_pure (List.Sublist.refl (name :: e.tokens))

theorem freshNameRule_ordered (declared : List String) (name : Token) (held : List Token) :
    (freshNameRule declared name).Ordered held fun _ => held := by
  unfold freshNameRule
  split
  · exact ordered_report _ name
  · exact ordered_pure (List.Sublist.refl held)

theorem varRule_ordered (room : Nat) (declared : List String) :
    (varRule room declared).Ordered [] Stmt.tokens := by
  apply ordered_bind (ordered_expect .identifier .expectName [])
  intro name
  apply ordered_bind (freshNameRule_ordered declared name [name])
  intro _
  exact ordered_terminated (initializerRule_ordered room name) fun _ => List.Sublist.refl _

theorem blockStatementRule_ordered (hinner : ∀ rule ∈ inner, rule.Ordered [] Stmt.listTokens)
    (brace : Token) : (blockStatementRule inner brace).Ordered [] Stmt.tokens := by
  apply ordered_bind (ordered_nested hinner)
  intro body
  exact ordered_pure (List.Sublist.refl (Stmt.listTokens body))

theorem declarationRule_ordered (hinner : ∀ rule ∈ inner, rule.Ordered [] Stmt.listTokens)
    (declared : List String) : (declarationRule room inner declared).Ordered [] Stmt.tokens := by
  intro ts
  cases ts with
  | nil => exact expressionStatementRule_ordered room []
  | cons t ts =>
    have hcons := List.sublist_cons_self t ts
    rw [declarationRule]
    split
    · exact (varRule_ordered room declared ts).trans hcons
    · exact printRule_ordered room t ts
    · exact (blockStatementRule_ordered hinner t ts).trans hcons
    · exact expressionStatementRule_ordered room (t :: ts)

theorem resume_sublist (ts : List Token) : (resume ts).Sublist ts := by
  cases ts with
  | nil => exact List.Sublist.refl []
  | cons t ts => exact (resume_suffix t ts).sublist.trans (List.sublist_cons_self t ts)

theorem recovering_sublist {rule : Rule Stmt} (h : rule.Ordered [] Stmt.tokens) (ts : List Token) :
    (Stmt.listTokens (recovering rule ts).value.toList ++ (recovering rule ts).rest).Sublist ts := by
  have hr : (keptTokens Stmt.tokens (rule ts).value ++ (rule ts).rest).Sublist ts := h ts
  unfold recovering
  split
  · rename_i stmt reports rest he
    rw [he] at hr
    simpa [Stmt.listTokens, keptTokens] using hr
  · rename_i e reports rest he
    rw [he] at hr
    exact (resume_sublist rest).trans hr

theorem scopeReading_sublist {declaration : List String → Rule Stmt}
    (h : ∀ declared, (declaration declared).Ordered [] Stmt.tokens) (stops : TokenKind → Bool)
    (count : Nat) (declared : List String) (ts : List Token) :
    (Stmt.listTokens (scopeReading declaration stops count declared ts).value ++
      (scopeReading declaration stops count declared ts).rest).Sublist ts := by
  induction count generalizing declared ts with
  | zero => exact List.Sublist.refl ts
  | succ count ih =>
    cases ts with
    | nil => exact List.Sublist.refl []
    | cons t ts =>
      have hfirst := recovering_sublist (h declared) (t :: ts)
      have hothers := ih (((recovering (declaration declared) (t :: ts)).value.bind
        Stmt.declares).toList ++ declared) (recovering (declaration declared) (t :: ts)).rest
      rw [scopeReading]
      split
      · exact List.Sublist.refl (t :: ts)
      · rw [Stmt.listTokens_append, List.append_assoc]
        exact (hothers.append_left _).trans hfirst

theorem innerBlockRule_ordered (room : Nat) :
    ∀ rule ∈ innerBlockRule room, rule.Ordered [] Stmt.listTokens := by
  induction room with
  | zero =>
    intro rule hrule
    cases hrule
  | succ room ih =>
    intro rule hrule
    cases hrule
    have hbody : (bodyRule room (innerBlockRule room)).Ordered [] Stmt.listTokens := fun ts =>
      scopeReading_sublist (declarationRule_ordered ih) (· = .rightBrace) ts.length [] ts
    exact ordered_terminated hbody fun body => List.Sublist.refl _

theorem listTokens_programReading_sublist (ts : List Token) :
    (Stmt.listTokens (programReading ts).value).Sublist ts :=
  (List.sublist_append_left _ _).trans (scopeReading_sublist
    (declarationRule_ordered (innerBlockRule_ordered maxNesting)) (fun _ => false) ts.length [] ts)

end Statements

theorem listTokens_parse_sublist (ts : List Token) :
    (Stmt.listTokens (parse ts).statements).Sublist (ts.takeWhile (·.kind ≠ .eof)) :=
  listTokens_programReading_sublist _

/-- The tokens that the statements keep, in the order in which they stand in the text, are found at
places of the list that increase strictly and lie in front of the end of the text, whatever errors
there are: recovering invents no token, uses none twice and moves none. -/
theorem parse_keeps_order (ts : List Token) :
    let kept := Stmt.listTokens (parse ts).statements
    ∃ place : Fin kept.length → Nat, StrictMono place ∧
      ∀ i, place i < ts.findIdx (·.kind = .eof) ∧ ts[place i]? = some (kept.get i) := by
  intro kept
  have hcut : ts.takeWhile (·.kind ≠ .eof) = ts.take (ts.findIdx (·.kind = .eof)) := by
    simp [List.takeWhile_eq_take_findIdx_not]
  have hkept : kept.Sublist (ts.take (ts.findIdx (·.kind = .eof))) := by
    rw [← hcut]
    exact listTokens_parse_sublist ts
  obtain ⟨f, hf⟩ := List.sublist_iff_exists_fin_orderEmbedding_get_eq.mp hkept
  refine ⟨fun i => f i, fun i j hij => f.strictMono hij, fun i => ?_⟩
  have hlt : (f i : Nat) < ts.findIdx (·.kind = .eof) := by
    have hlength := List.length_take_le (ts.findIdx (·.kind = .eof)) ts
    omega
  refine ⟨hlt, ?_⟩
  rw [hf i, List.get_eq_getElem, ← List.getElem?_eq_getElem, List.getElem?_take_of_lt hlt]

end Treewalk
