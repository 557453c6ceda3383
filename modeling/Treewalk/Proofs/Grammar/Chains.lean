import Treewalk.Proofs.Grammar.Recovery

/-! Chains of assignments. Each sign assigns what stands to its right to what stands to its left, if
that is a name alone. If it is not, the sign is reported and all to its right is dropped; reading goes
on either way. -/

namespace Treewalk

/-- The name that a phrase is, if its only token is one. -/
def ExprTree.name? {n : Nonterminal} (e : ExprTree n) : Option Token :=
  match e.tokens with
  | [t] => if t.kind = .identifier then some t else none
  | _ => none

/-- An equality with the sign that assigns to it. -/
structure Link where
  left : ExprTree (.operation .equality)
  equals : Terminal .equal

/-- Equalities with signs between them, and the last one. -/
structure Chain where
  links : List Link
  last : ExprTree (.operation .equality)

namespace Link

def tokens (link : Link) : List Token :=
  link.left.tokens ++ [link.equals.val]

/-- The expression that the link makes with the value to its right. -/
def expr (link : Link) (value : Expr) : Expr :=
  match link.left.name? with
  | some name => .assign name value
  | none => link.left.expr

/-- Whether there is something else than a name to the left of the sign. -/
def isInvalid (link : Link) : Bool :=
  link.left.name?.isNone

/-- The report on the sign of an invalid link; reading is not resumed elsewhere. -/
def report (link : Link) : SyntaxReport :=
  ⟨⟨.invalidTarget, some link.equals.val⟩, none⟩

end Link

namespace Chain

def tokens (chain : Chain) : List Token :=
  chain.links.flatMap Link.tokens ++ chain.last.tokens

def expr (chain : Chain) : Expr :=
  chain.links.foldr Link.expr chain.last.expr

/-- Every phrase of the chain, as many levels deep as there are signs in front of it, stays within
the limit. -/
def NestsWithin (room : Nat) (chain : Chain) : Prop :=
  (∀ i, (h : i < chain.links.length) → i + chain.links[i].left.expr.nesting ≤ room) ∧
    chain.links.length + chain.last.expr.nesting ≤ room

end Chain

theorem ExprTree.name?_eq_some_iff (e : ExprTree (.operation .equality)) {name : Token} :
    e.name? = some name ↔ e.expr = .variable name := by
  constructor
  · intro h
    unfold ExprTree.name? at h
    split at h
    · rename_i t ht
      split at h
      · rename_i hk
        cases h
        have hstops : (Nonterminal.operation .equality).Stops [] := by simp [Nonterminal.Stops]
        have hname := equalityRule_reads_name (innerRules e.expr.nesting) ⟨name, hk⟩ hstops
        have hread := e.reads (Nat.le_refl _) hstops
        rw [ht] at hread
        have hsame := hread.symm.trans hname
        simpa using hsame
      · cases h
    · cases h
  · intro h
    obtain ⟨ht, hk⟩ := e.tokens_of_variable h
    simp [ExprTree.name?, ht, hk]

/-- The sign and what is assigned have been read. -/
theorem Link.assignRule_reads (link : Link) (value : Expr) (rest : List Token) :
    (assignRule link.left.expr link.equals.val value).Reads rest (link.expr value)
      ([link].filter Link.isInvalid |>.map Link.report) rest := by
  cases hname : link.left.name? with
  | some name =>
    have hvariable := link.left.name?_eq_some_iff.mp hname
    have hinvalid : [link].filter Link.isInvalid = [] := by simp [Link.isInvalid, hname]
    simp only [hvariable, Link.expr, hinvalid, hname]
    exact Rule.reads_pure.mpr ⟨rfl, rfl, rfl⟩
  | none =>
    have hvariable : ∀ name, link.left.expr ≠ .variable name := fun name h => by
      simp [link.left.name?_eq_some_iff.mpr h] at hname
    have hinvalid : [link].filter Link.isInvalid = [link] := by simp [Link.isInvalid, hname]
    simp only [Link.expr, hinvalid, hname]
    unfold assignRule
    split
    · rename_i name h
      exact absurd h (hvariable name)
    · exact Rule.reads_bind.mpr
        ⟨(), [link.report], rest, [], Rule.reads_report.mpr ⟨rfl, rfl⟩, rfl, rfl⟩

theorem Chain.NestsWithin.cons {room : Nat} {link : Link} {links : List Link}
    {last : ExprTree (.operation .equality)} (h : NestsWithin room ⟨link :: links, last⟩) :
    link.left.expr.nesting ≤ room ∧ ∃ r, room = r + 1 ∧ NestsWithin r ⟨links, last⟩ := by
  obtain ⟨hlinks, hlast⟩ := h
  dsimp only [List.length_cons] at hlinks hlast
  have hfirst := hlinks 0 (by omega)
  refine ⟨by simpa using hfirst, room - 1, by omega, fun i hi => ?_, by dsimp only; omega⟩
  dsimp only at hi ⊢
  have hnext := hlinks (i + 1) (by omega)
  simp only [List.getElem_cons_succ] at hnext
  omega

/-- The rule for assignments reads a chain up to its end. A sign is reported behind those to its
right, since what it assigns is read first. -/
theorem Chain.reads (links : List Link) (last : ExprTree (.operation .equality)) {room : Nat}
    {rest : List Token} (h : NestsWithin room ⟨links, last⟩) (hs : Nonterminal.assignment.Stops rest) :
    (assignmentRule (innerRules room)).Reads (tokens ⟨links, last⟩ ++ rest) (expr ⟨links, last⟩)
      ((links.filter Link.isInvalid).reverse.map Link.report) rest := by
  induction links generalizing room with
  | nil =>
    have hlast : last.expr.nesting ≤ room := by simpa using h.2
    exact (ExprTree.equality last).reads hlast hs
  | cons link links ih =>
    obtain ⟨hfirst, r, rfl, hrest⟩ := h.cons
    have hleft := link.left.reads hfirst
      (equal_stops_equality link.equals (tokens ⟨links, last⟩ ++ rest))
    have hvalue : (Rule.nested link.equals.val
        ((innerRules (r + 1)).map ExprRules.expression)).Reads _ _ _ rest :=
      nested_expression_reads.mpr ⟨r, rfl, ih hrest⟩
    have hassign := link.assignRule_reads (expr ⟨links, last⟩) rest
    have hreports : ((link :: links).filter Link.isInvalid).reverse.map Link.report =
        (links.filter Link.isInvalid).reverse.map Link.report ++
          ([link].filter Link.isInvalid).map Link.report := by
      cases hi : link.isInvalid <;> simp [hi]
    have htokens : tokens ⟨link :: links, last⟩ ++ rest =
        link.left.tokens ++ link.equals.val :: (tokens ⟨links, last⟩ ++ rest) := by
      simp [tokens, Link.tokens]
    rw [htokens]
    refine Rule.reads_bind.mpr ⟨link.left.expr, [], _, _, hleft, ?_, rfl⟩
    refine Rule.reads_bind.mpr ⟨some ((), link.equals.val), [], _, _,
      Rule.reads_accept_some.mpr ⟨rfl, only_eq_some_iff.mpr link.equals.property, rfl⟩, ?_, rfl⟩
    exact Rule.reads_bind.mpr ⟨_, _, _, _, hvalue, hassign, hreports⟩

theorem Chain.head (chain : Chain) :
    ∃ t ts, chain.tokens = t :: ts ∧ t.kind.opensExpression = true := by
  obtain ⟨links, last⟩ := chain
  cases links with
  | nil =>
    obtain ⟨t, ts, ht, hk⟩ := last.head
    exact ⟨t, ts, by simp [tokens, ht], hk⟩
  | cons link links =>
    obtain ⟨t, ts, ht, hk⟩ := link.left.head
    exact ⟨t, ts ++ link.equals.val :: tokens ⟨links, last⟩, by simp [tokens, Link.tokens, ht], hk⟩

theorem Chain.declaration_reads (chain : Chain) {room : Nat} (h : chain.NestsWithin room)
    (declared : List String) (semicolon : Terminal .semicolon) (rest : List Token) :
    (declarationRule room (innerBlockRule room) declared).Reads
      (chain.tokens ++ semicolon.val :: rest) (.expression chain.expr)
      ((chain.links.filter Link.isInvalid).reverse.map Link.report) rest := by
  have hstops : Nonterminal.assignment.Stops (semicolon.val :: rest) :=
    closer_stops_assignment (.inl semicolon.property)
  have hread := Chain.reads chain.links chain.last h hstops
  obtain ⟨t, ts, ht, hk⟩ := chain.head
  have hopens : ∀ u ∈ (chain.tokens ++ semicolon.val :: rest).head?,
      u.kind ≠ .var ∧ u.kind ≠ .print ∧ u.kind ≠ .leftBrace := by
    simpa [ht] using kind_of_opensExpression hk
  refine declarationRule_reads.mpr (.inr (.inr (.inr ⟨hopens, ?_⟩)))
  refine expressionStatementRule_reads.mpr ⟨chain.expr, semicolon.val, ?_, semicolon.property, rfl⟩
  rw [expressionRule, expression_exprRules]
  exact hread

theorem Chain.kind_ne_eof (chain : Chain) : ∀ t ∈ chain.tokens, t.kind ≠ .eof := by
  simp only [tokens, List.forall_mem_append, List.forall_mem_flatMap]
  refine ⟨fun link _ => ?_, chain.last.kind_ne_eof⟩
  simpa [Link.tokens, link.equals.property, or_imp, forall_and] using link.left.kind_ne_eof

/-- The diagnostic on a sign with something else than a name to its left. -/
def invalidTargetDiagnostic (equals : Token) : Diagnostic where
  phase := .syntactic
  span := equals.span
  line := equals.line
  location := .at equals.lexeme
  message := "Invalid assignment target."
  help := some "Only a variable name can appear on the left-hand side of '='."

/-- A chain of assignments within the nesting limit is one statement. Each sign with something else
than a name to its left is reported, the last one first, and no other error is. -/
theorem parse_chain (chain : Chain) (semicolon : Terminal .semicolon) (suffix : List Token)
    (h : chain.NestsWithin maxNesting) (hs : ∀ t ∈ suffix.head?, t.kind = .eof) :
    let p := parse (chain.tokens ++ [semicolon.val] ++ suffix)
    let invalid := (chain.links.filter Link.isInvalid).reverse
    p.statements = [.expression chain.expr] ∧
      p.reports = invalid.map (fun link => ⟨⟨.invalidTarget, some link.equals.val⟩, none⟩) ∧
      p.diagnostics = invalid.map (fun link => invalidTargetDiagnostic link.equals.val) := by
  intro p invalid
  have heof : ∀ t ∈ chain.tokens ++ [semicolon.val], t.kind ≠ .eof := by
    simpa [semicolon.property, or_imp, forall_and] using chain.kind_ne_eof
  have hread := chain.declaration_reads h [] semicolon []
  have hscope : scopeFrom maxNesting (fun _ => false) [] (chain.tokens ++ [semicolon.val]) =
      ⟨[.expression chain.expr], invalid.map Link.report, []⟩ := by
    obtain ⟨t, ts, ht, -⟩ := chain.head
    rw [ht, List.cons_append] at hread ⊢
    have hnone : scopeFrom maxNesting (fun _ => false)
        ((Stmt.expression chain.expr).declares.toList ++ []) [] = ⟨[], [], []⟩ := rfl
    rw [scopeFrom_reads rfl hread, hnone, List.append_nil]
  have hparse : p = ⟨[.expression chain.expr], invalid.map Link.report, _⟩ :=
    (parse_append_eof heof hs).trans (by rw [hscope])
  rw [Parse.diagnostics, hparse, List.map_map]
  exact ⟨rfl, rfl, rfl⟩

theorem parse_chain_mixed :
    let terminal (kind : TokenKind) (lexeme : String) (start : Nat) : Terminal kind :=
      ⟨⟨kind, lexeme, none, 1, ⟨start, start + lexeme.length⟩⟩, rfl⟩
    let atom (a : Atom) : ExprTree (.operation .equality) := .single (.primary (.atom a))
    let a := terminal .identifier "a" 5
    let b := terminal .identifier "b" 0
    let second := terminal .equal "=" 8
    let third := terminal .equal "=" 12
    let grouping : ExprTree (.operation .equality) :=
      .single (.primary (.grouping (terminal .leftParen "(" 4) (.equality (atom (.name a)))
        (terminal .rightParen ")" 6)))
    let chain : Chain :=
      { links :=
          [⟨atom (.name b), terminal .equal "=" 2⟩, ⟨grouping, second⟩,
            ⟨atom (.nil (terminal .nil "nil" 10)), third⟩]
        last := atom (.name (terminal .identifier "c" 14)) }
    let semicolon := terminal .semicolon ";" 15
    let suffix := [eofToken ⟨16, 1⟩]
    let p := parse (chain.tokens ++ [semicolon.val] ++ suffix)
    chain.NestsWithin maxNesting ∧ (∀ t ∈ suffix.head?, t.kind = .eof) ∧
      p.statements = [.expression (.assign b.val (.grouping (.variable a.val)))] ∧
      p.diagnostics = [invalidTargetDiagnostic third.val, invalidTargetDiagnostic second.val] := by
  intro terminal atom a b second third grouping chain semicolon suffix p
  have hn : chain.NestsWithin maxNesting := ⟨by decide, by decide⟩
  have hs : ∀ t ∈ suffix.head?, t.kind = .eof := by simp [suffix, eofToken]
  have h := parse_chain chain semicolon suffix hn hs
  exact ⟨hn, hs, h.1, h.2.2⟩

end Treewalk
