import Treewalk.Proofs.Grammar.Follow

/-! The grammar is unambiguous: a list of tokens is derived by one tree at most. The trees of
expressions are told apart with whatever follows them, as long as it cannot carry them on. -/

namespace Treewalk

theorem UnaryOp.kind_injective {a b : UnaryOp} (h : a.kind = b.kind) : a = b := by
  cases a <;> cases b <;> first | rfl | cases h

theorem Atom.token_injective {a b : Atom} (h : a.token = b.token) : a = b := by
  cases a <;> cases b <;> rename_i s t
  all_goals first
    | exact congrArg _ (Subtype.ext h)
    | exact absurd (s.property.symm.trans ((congrArg Token.kind h).trans t.property)) (by decide)

/-- In front of an equals sign, a phrase other than an assignment that begins with a name is that
name alone. -/
theorem ExprTree.tokens_before_equal : ∀ {n : Nonterminal} (d : ExprTree n) {ts rest : List Token}
    {name equals : Token}, n ≠ .assignment → name.kind = .identifier → equals.kind = .equal →
      d.tokens ++ rest = name :: equals :: ts → d.tokens = [name]
  | _, .assign _ _ _, _, _, _, _, hn, _, _, _ => absurd rfl hn
  | _, .equality _, _, _, _, _, hn, _, _, _ => absurd rfl hn
  | .operation tier, .operation first others, ts, rest, name, equals, _, hname, hequals, h => by
    rw [ExprTree.tokens, List.append_assoc] at h
    have hf := first.tokens_before_equal (by cases tier <;> simp [Tier.operand]) hname hequals h
    cases others with
    | nil => simpa [ExprTree.tokens, OperandTrees.tokens] using hf
    | cons op tier_eq token operand others =>
      simp only [hf, OperandTrees.tokens, List.cons_append, List.nil_append, List.cons.injEq] at h
      have hk := token.property
      rw [h.2.1, hequals] at hk
      cases op <;> cases hk
  | _, .unary op token _, _, _, name, _, _, hname, _, h => by
    have hk := token.property
    rw [(List.cons.inj h).1, hname] at hk
    cases op <;> cases hk
  | _, .primary e, _, _, _, _, _, hname, hequals, h =>
    e.tokens_before_equal (by simp) hname hequals h
  | _, .atom a, _, _, _, _, _, _, _, h => congrArg (fun t => [t]) (List.cons.inj h).1
  | _, .grouping left _ _, _, _, name, _, _, hname, _, h => by
    have hk := left.property
    rw [(List.cons.inj h).1, hname] at hk
    cases hk

theorem not_stops_of_assign {e : ExprTree (.operation .equality)} {rest ts : List Token}
    {name : Terminal .identifier} {equals : Terminal .equal}
    (h : e.tokens ++ rest = name.val :: equals.val :: ts) : ¬ Nonterminal.assignment.Stops rest := by
  intro hs
  have he := e.tokens_before_equal (by simp) name.property equals.property h
  rw [he] at h
  obtain rfl := (List.cons.inj h).2
  exact Nonterminal.stops_cons.mp hs (.inl equals.property)

theorem unary_tokens_ne_primary {op : UnaryOp} {token : Terminal op.kind} {e : ExprTree .primary}
    {ts rest : List Token} : token.val :: ts ≠ e.tokens ++ rest := by
  intro h
  obtain ⟨t, tail, ht, hk⟩ := e.primary_head
  rw [ht] at h
  rw [← (List.cons.inj h).1, token.property] at hk
  cases op <;> cases hk

theorem Atom.token_ne_leftParen (a : Atom) (left : Terminal .leftParen) : a.token ≠ left.val := by
  intro h
  have hk := left.property
  rw [← h] at hk
  cases a <;> rename_i t <;> exact absurd (t.property.symm.trans hk) (by decide)

theorem not_stops_of_operator {tier : Tier} {op : BinaryOp} (h : op.tier = tier)
    (token : Terminal op.kind) (ts : List Token) :
    ¬ (Nonterminal.operation tier).Stops (token.val :: ts) := by
  intro hs
  exact Nonterminal.stops_cons.mp hs ⟨op, token.property.symm, Nat.le_of_eq (by rw [h])⟩

mutual

theorem ExprTree.eq_of_tokens : ∀ {n : Nonterminal} (d d' : ExprTree n) {rest rest' : List Token},
    n.Stops rest → n.Stops rest' → d.tokens ++ rest = d'.tokens ++ rest' → d = d' ∧ rest = rest'
  | _, .assign name equals value, .assign name' equals' value', rest, rest', hs, hs', h => by
    simp only [ExprTree.tokens, List.cons_append, List.cons.injEq] at h
    obtain ⟨hn, he, h⟩ := h
    obtain ⟨rfl, rfl⟩ := value.eq_of_tokens value' hs hs' h
    exact ⟨by rw [Subtype.ext hn, Subtype.ext he], rfl⟩
  | _, .assign name equals value, .equality e', rest, rest', hs, hs', h =>
    absurd hs' (not_stops_of_assign h.symm)
  | _, .equality e, .assign name' equals' value', rest, rest', hs, hs', h =>
    absurd hs (not_stops_of_assign h)
  | _, .equality e, .equality e', rest, rest', hs, hs', h => by
    obtain ⟨rfl, rfl⟩ := e.eq_of_tokens e' (stops_equality hs) (stops_equality hs') h
    exact ⟨rfl, rfl⟩
  | _, .operation first others, .operation first' others', rest, rest', hs, hs', h => by
    simp only [ExprTree.tokens, List.append_assoc] at h
    obtain ⟨rfl, ho⟩ := first.eq_of_tokens first' (others.stops_operand hs)
      (others'.stops_operand hs') h
    obtain ⟨rfl, rfl⟩ := others.eq_of_tokens others' hs hs' ho
    exact ⟨rfl, rfl⟩
  | _, .unary op token operand, .unary op' token' operand', rest, rest', hs, hs', h => by
    simp only [ExprTree.tokens, List.cons_append, List.cons.injEq] at h
    obtain ⟨ht, h⟩ := h
    obtain rfl := UnaryOp.kind_injective
      (token.property.symm.trans ((congrArg Token.kind ht).trans token'.property))
    obtain ⟨rfl, rfl⟩ := operand.eq_of_tokens operand' hs hs' h
    exact ⟨by rw [Subtype.ext ht], rfl⟩
  | _, .unary op token operand, .primary e', rest, rest', hs, hs', h =>
    absurd h unary_tokens_ne_primary
  | _, .primary e, .unary op' token' operand', rest, rest', hs, hs', h =>
    absurd h.symm unary_tokens_ne_primary
  | _, .primary e, .primary e', rest, rest', hs, hs', h => by
    obtain ⟨rfl, rfl⟩ := e.eq_of_tokens e' hs hs' h
    exact ⟨rfl, rfl⟩
  | _, .atom a, .atom a', rest, rest', hs, hs', h => by
    obtain ⟨ht, rfl⟩ := List.cons.inj h
    exact ⟨by rw [Atom.token_injective ht], rfl⟩
  | _, .atom a, .grouping left' inner' right', rest, rest', hs, hs', h =>
    absurd (List.cons.inj h).1 (a.token_ne_leftParen left')
  | _, .grouping left inner right, .atom a', rest, rest', hs, hs', h =>
    absurd (List.cons.inj h).1.symm (a'.token_ne_leftParen left)
  | _, .grouping left inner right, .grouping left' inner' right', rest, rest', hs, hs', h => by
    simp only [ExprTree.tokens, List.cons_append, List.append_assoc, List.cons.injEq] at h
    obtain ⟨hl, h⟩ := h
    obtain ⟨rfl, ht⟩ := inner.eq_of_tokens inner'
      (closer_stops_assignment (.inr right.property))
      (closer_stops_assignment (.inr right'.property)) h
    obtain ⟨hr, rfl⟩ := List.cons.inj ht
    exact ⟨by rw [Subtype.ext hl, Subtype.ext hr], rfl⟩

theorem OperandTrees.eq_of_tokens : ∀ {tier : Tier} (d d' : OperandTrees tier)
    {rest rest' : List Token}, (Nonterminal.operation tier).Stops rest →
      (Nonterminal.operation tier).Stops rest' → d.tokens ++ rest = d'.tokens ++ rest' →
      d = d' ∧ rest = rest'
  | _, .nil, .nil, rest, rest', hs, hs', h => ⟨rfl, h⟩
  | _, .nil, .cons op' tier_eq' token' operand' others', rest, rest', hs, hs', h => by
    obtain rfl : rest = _ := h
    exact absurd hs (not_stops_of_operator tier_eq' token' _)
  | _, .cons op tier_eq token operand others, .nil, rest, rest', hs, hs', h => by
    obtain rfl : _ = rest' := h
    exact absurd hs' (not_stops_of_operator tier_eq token _)
  | _, .cons op tier_eq token operand others, .cons op' tier_eq' token' operand' others',
      rest, rest', hs, hs', h => by
    simp only [OperandTrees.tokens, List.cons_append, List.append_assoc, List.cons.injEq] at h
    obtain ⟨ht, h⟩ := h
    obtain rfl := BinaryOp.kind_injective
      (token.property.symm.trans ((congrArg Token.kind ht).trans token'.property))
    obtain ⟨rfl, ho⟩ := operand.eq_of_tokens operand' (others.stops_operand hs)
      (others'.stops_operand hs') h
    obtain ⟨rfl, rfl⟩ := others.eq_of_tokens others' hs hs' ho
    exact ⟨by rw [Subtype.ext ht], rfl⟩

end

theorem initializer_eq_of_tokens (i i' : Option (Terminal .equal × ExprTree .assignment))
    {semicolon semicolon' : Terminal .semicolon} {rest rest' : List Token}
    (h : initializerTokens i ++ semicolon.val :: rest =
      initializerTokens i' ++ semicolon'.val :: rest') :
    i = i' ∧ semicolon = semicolon' ∧ rest = rest' := by
  have hne : ∀ (s : Terminal .semicolon) (e : Terminal .equal), s.val ≠ e.val := by
    intro s e he
    have hk := s.property
    rw [he, e.property] at hk
    cases hk
  match i, i' with
  | none, none =>
    obtain ⟨hs, hr⟩ := List.cons.inj h
    exact ⟨rfl, Subtype.ext hs, hr⟩
  | none, some (equals', e') => exact absurd (List.cons.inj h).1 (hne semicolon equals')
  | some (equals, e), none => exact absurd (List.cons.inj h).1.symm (hne semicolon' equals)
  | some (equals, e), some (equals', e') =>
    obtain ⟨he, ht⟩ := List.cons.inj h
    obtain ⟨rfl, hr⟩ := e.eq_of_tokens e' (closer_stops_assignment (.inl semicolon.property))
      (closer_stops_assignment (.inl semicolon'.property)) ht
    obtain ⟨hs, hrest⟩ := List.cons.inj hr
    exact ⟨by rw [Subtype.ext he], Subtype.ext hs, hrest⟩

/-- The token that decides which kind of declaration follows, if there is one. -/
def StmtTree.keyword? : StmtTree → Option TokenKind
  | .expression _ _ => none
  | .print _ _ _ => some .print
  | .var _ _ _ _ => some .var
  | .block _ _ _ => some .leftBrace

theorem StmtTree.keyword?_eq_of_tokens {d d' : StmtTree} {rest rest' : List Token}
    (h : d.tokens ++ rest = d'.tokens ++ rest') : d.keyword? = d'.keyword? := by
  have hk : ∀ d : StmtTree, ∃ t ts, d.tokens = t :: ts ∧
      d.keyword? = if t.kind ∈ [.print, .var, .leftBrace] then some t.kind else none := by
    intro d
    cases d with
    | expression e semicolon =>
      obtain ⟨t, ts, ht, ho⟩ := e.head
      obtain ⟨hv, hp, hb⟩ := kind_of_opensExpression ho
      exact ⟨t, ts ++ [semicolon.val], by simp [StmtTree.tokens, ht],
        by simp [StmtTree.keyword?, hv, hp, hb]⟩
    | print keyword e semicolon =>
      exact ⟨keyword.val, _, by rw [StmtTree.tokens], by simp [StmtTree.keyword?, keyword.property]⟩
    | var keyword name initializer semicolon =>
      exact ⟨keyword.val, _, by rw [StmtTree.tokens], by simp [StmtTree.keyword?, keyword.property]⟩
    | block left body right =>
      exact ⟨left.val, _, by rw [StmtTree.tokens], by simp [StmtTree.keyword?, left.property]⟩
  obtain ⟨t, ts, ht, hd⟩ := hk d
  obtain ⟨t', ts', ht', hd'⟩ := hk d'
  rw [ht, ht'] at h
  rw [hd, hd', (List.cons.inj h).1]

mutual

theorem StmtTree.eq_of_tokens : ∀ (d d' : StmtTree) {rest rest' : List Token},
    d.tokens ++ rest = d'.tokens ++ rest' → d = d' ∧ rest = rest'
  | .expression e semicolon, d', rest, rest', h => by
    have hk := StmtTree.keyword?_eq_of_tokens h
    cases d' with
    | expression e' semicolon' =>
      simp only [StmtTree.tokens, List.append_assoc] at h
      obtain ⟨rfl, ht⟩ := e.eq_of_tokens e' (closer_stops_assignment (.inl semicolon.property))
        (closer_stops_assignment (.inl semicolon'.property)) h
      obtain ⟨hs, rfl⟩ := List.cons.inj ht
      exact ⟨by rw [Subtype.ext hs], rfl⟩
    | _ => cases hk
  | .print keyword e semicolon, d', rest, rest', h => by
    have hk := StmtTree.keyword?_eq_of_tokens h
    cases d' with
    | print keyword' e' semicolon' =>
      simp only [StmtTree.tokens, List.cons_append, List.append_assoc, List.cons.injEq] at h
      obtain ⟨hw, h⟩ := h
      obtain ⟨rfl, ht⟩ := e.eq_of_tokens e' (closer_stops_assignment (.inl semicolon.property))
        (closer_stops_assignment (.inl semicolon'.property)) h
      obtain ⟨hs, rfl⟩ := List.cons.inj ht
      exact ⟨by rw [Subtype.ext hw, Subtype.ext hs], rfl⟩
    | _ => cases hk
  | .var keyword name initializer semicolon, d', rest, rest', h => by
    have hk := StmtTree.keyword?_eq_of_tokens h
    cases d' with
    | var keyword' name' initializer' semicolon' =>
      simp only [StmtTree.tokens, List.cons_append, List.append_assoc, List.cons.injEq] at h
      obtain ⟨hw, hn, h⟩ := h
      obtain ⟨rfl, rfl, rfl⟩ := initializer_eq_of_tokens initializer initializer' h
      exact ⟨by rw [Subtype.ext hw, Subtype.ext hn], rfl⟩
    | _ => cases hk
  | .block left body right, d', rest, rest', h => by
    have hk := StmtTree.keyword?_eq_of_tokens h
    cases d' with
    | block left' body' right' =>
      simp only [StmtTree.tokens, List.cons_append, List.append_assoc, List.cons.injEq] at h
      obtain ⟨hl, h⟩ := h
      obtain ⟨rfl, ht⟩ := StmtTree.list_eq_of_tokens body body' (by simp [right.property])
        (by simp [right'.property]) h
      obtain ⟨hr, rfl⟩ := List.cons.inj ht
      exact ⟨by rw [Subtype.ext hl, Subtype.ext hr], rfl⟩
    | _ => cases hk

theorem StmtTree.list_eq_of_tokens : ∀ (ds ds' : List StmtTree) {rest rest' : List Token},
    (∀ t ∈ rest.head?, t.kind = .rightBrace) → (∀ t ∈ rest'.head?, t.kind = .rightBrace) →
      StmtTree.listTokens ds ++ rest = StmtTree.listTokens ds' ++ rest' → ds = ds' ∧ rest = rest'
  | [], [], _, _, _, _, h => ⟨rfl, h⟩
  | [], d' :: ds', rest, rest', hr, _, h => by
    obtain ⟨t, ts, ht, hk⟩ := d'.head
    obtain rfl : rest = _ := h
    exact absurd (hr t (by simp [StmtTree.listTokens, ht])) hk
  | d :: ds, [], rest, rest', _, hr', h => by
    obtain ⟨t, ts, ht, hk⟩ := d.head
    obtain rfl : _ = rest' := h
    exact absurd (hr' t (by simp [StmtTree.listTokens, ht])) hk
  | d :: ds, d' :: ds', rest, rest', hr, hr', h => by
    simp only [StmtTree.listTokens, List.append_assoc] at h
    obtain ⟨rfl, ht⟩ := d.eq_of_tokens d' h
    obtain ⟨rfl, rfl⟩ := StmtTree.list_eq_of_tokens ds ds' hr hr' ht
    exact ⟨rfl, rfl⟩

end

end Treewalk
