import Treewalk.Proofs.Grammar.Parsing
import Treewalk.Proofs.Grammar.Scopes

/-! What follows an error. Reading resumes behind the next semicolon, and the token at which a
declaration stopped is passed over in any case. A declaration without its semicolon stops at the
keyword of the next one, so that both are lost. -/

namespace Treewalk

variable {α β : Type} {room : Nat} {inner : Option (Rule (List Stmt))} {declared : List String}
  {ts rest : List Token} {reports : List SyntaxReport}

theorem resume_line {line : List Token} (hk : ∀ t ∈ line, t.kind ≠ .semicolon)
    (hs : ∀ t ∈ line.tail, t.kind.startsStatement = false) (semicolon : Terminal .semicolon)
    (rest : List Token) : resume (line ++ semicolon.val :: rest) = rest := by
  induction line with
  | nil => simp [resume, semicolon.property]
  | cons t ts ih =>
    obtain ⟨ht, hts⟩ := List.forall_mem_cons.mp hk
    have hnext : (ts ++ semicolon.val :: rest).head?.any (·.kind.startsStatement) = false := by
      cases ts with
      | nil => simp [semicolon.property, TokenKind.startsStatement]
      | cons u us => simpa using hs u List.mem_cons_self
    rw [List.cons_append, resume, if_neg (by simp only [ht, hnext, Bool.false_eq_true, or_self,
      not_false_eq_true])]
    exact ih hts fun u hu => hs u (List.mem_of_mem_tail hu)

theorem terminated_fails {kind : TokenKind} {fault : SyntaxFault} {rule : Rule α} {f : α → β}
    {a : α} {t : Token} (h : rule.Reads ts a reports (t :: rest)) (ht : t.kind ≠ kind) :
    (do
      let a ← rule
      let _ ← Rule.expect kind fault
      return f a : Rule β).Fails ts ⟨fault, some t⟩ reports (t :: rest) := by
  rw [← List.append_nil reports]
  apply Rule.fails_bind_of_reads h
  exact Rule.fails_bind (Rule.expect_fails ht fault rest)

theorem varRule_fails {name t : Token} {initializer : Option Expr} (hname : name.kind = .identifier)
    (h : (initializerRule room).Reads ts initializer [] (t :: rest)) (ht : t.kind ≠ .semicolon) :
    (varRule room declared).Fails (name :: ts) ⟨.expectSemicolonAfterDeclaration, some t⟩
      (((Stmt.var name initializer).redeclared declared).map redeclaredReport) (t :: rest) := by
  have hexpect : (Rule.expect .identifier .expectName).Reads (name :: ts) name [] ts :=
    Rule.reads_expect.mpr ⟨rfl, hname, rfl⟩
  have hfresh : (freshNameRule declared name).Reads ts () _ ts :=
    freshNameRule_reads.mpr ⟨rfl, rfl⟩
  rw [← List.append_nil (List.map _ _)]
  apply Rule.fails_bind_of_reads hexpect
  apply Rule.fails_bind_of_reads hfresh
  exact terminated_fails h ht

theorem declarationRule_var {t : Token} (h : t.kind = .var) (ts : List Token) :
    declarationRule room inner declared (t :: ts) = varRule room declared ts := by
  simp [declarationRule, h]

theorem declarationRule_print {t : Token} (h : t.kind = .print) (ts : List Token) :
    declarationRule room inner declared (t :: ts) = printRule room t ts := by
  simp [declarationRule, h]

theorem declarationRule_expression (h : ∀ t ∈ ts.head?, t.kind ≠ .var ∧ t.kind ≠ .print ∧
    t.kind ≠ .leftBrace) :
    declarationRule room inner declared ts = expressionStatementRule room ts := by
  cases ts with
  | nil => rfl
  | cons t ts =>
    obtain ⟨hv, hp, hb⟩ := h t rfl
    rw [declarationRule]
    split
    · exact absurd ‹_› hv
    · exact absurd ‹_› hp
    · exact absurd ‹_› hb
    · rfl

theorem stops_assignment {t : Token} (h : t.kind.inExpression = false) (ts : List Token) :
    Nonterminal.assignment.Stops (t :: ts) := by
  rw [Nonterminal.stops_cons]
  rintro (hk | ⟨op, hk⟩)
  · rw [hk] at h
    cases h
  · rw [← hk, op.inExpression_kind] at h
    cases h

/-- The fault of a declaration whose last token is missing. -/
def StmtTree.unclosed : StmtTree → SyntaxFault
  | .expression _ _ => .expectSemicolonAfterExpression
  | .print _ _ _ => .expectSemicolonAfterValue
  | .var _ _ _ _ => .expectSemicolonAfterDeclaration
  | .block _ _ _ => .expectBraceAfterBlock

theorem StmtTree.fails_unclosed (d : StmtTree) (hd : d.keyword? ≠ some .leftBrace)
    (hn : d.stmt.nesting ≤ room) {t : Token} (ht : t.kind.inExpression = false)
    (hsemicolon : t.kind ≠ .semicolon) (declared : List String) (rest : List Token) :
    (declarationRule room (innerBlockRule room) declared).Fails (d.tokens.dropLast ++ t :: rest)
      ⟨d.unclosed, some t⟩ ((d.stmt.redeclared declared).map redeclaredReport) (t :: rest) := by
  have hstops := stops_assignment ht rest
  unfold Rule.Fails
  cases d with
  | expression e semicolon =>
    have he := expressionRule_reads e hn hstops
    have hopens : ∀ u ∈ (e.tokens ++ t :: rest).head?,
        u.kind ≠ .var ∧ u.kind ≠ .print ∧ u.kind ≠ .leftBrace := by
      obtain ⟨u, us, hu, hk⟩ := e.head
      simpa [hu] using kind_of_opensExpression hk
    rw [StmtTree.tokens, List.dropLast_concat, declarationRule_expression hopens]
    exact terminated_fails he hsemicolon
  | print keyword e semicolon =>
    have he := expressionRule_reads e hn hstops
    rw [StmtTree.tokens, ← List.cons_append, List.dropLast_concat, List.cons_append,
      declarationRule_print keyword.property]
    exact terminated_fails he hsemicolon
  | var keyword name initializer semicolon =>
    have hi : ∀ i ∈ initializer, i.2.expr.nesting ≤ room := by
      rintro i rfl
      simpa [StmtTree.stmt, Stmt.nesting] using hn
    have hinitializer := initializer_reads initializer hi hstops
    rw [StmtTree.tokens, ← List.cons_append, ← List.cons_append, List.dropLast_concat,
      List.cons_append, List.cons_append, declarationRule_var keyword.property]
    exact varRule_fails name.property hinitializer hsemicolon
  | block left body right => exact absurd rfl hd

theorem StmtTree.exists_line (d : StmtTree) (hd : d.keyword? ≠ some .leftBrace) :
    ∃ (first : Token) (line : List Token) (semicolon : Terminal .semicolon),
      d.tokens = first :: line ++ [semicolon.val] ∧ (∀ t ∈ first :: line, t.kind ≠ .semicolon) ∧
        ∀ t ∈ line, t.kind.startsStatement = false := by
  have hexpr : ∀ e : ExprTree .assignment, ∀ t ∈ e.tokens,
      t.kind ≠ .semicolon ∧ t.kind.startsStatement = false := by
    intro e t ht
    obtain ⟨hk, -, hs⟩ := kind_of_inExpression (e.inExpression t ht)
    exact ⟨hk, hs⟩
  cases d with
  | expression e semicolon =>
    obtain ⟨first, line, he, -⟩ := e.head
    have hline := hexpr e
    rw [he] at hline
    refine ⟨first, line, semicolon, by rw [StmtTree.tokens, he], fun t ht => (hline t ht).1, ?_⟩
    exact fun t ht => (hline t (List.mem_cons_of_mem _ ht)).2
  | print keyword e semicolon =>
    refine ⟨keyword.val, e.tokens, semicolon, rfl, ?_, fun t ht => (hexpr e t ht).2⟩
    exact List.forall_mem_cons.mpr ⟨by simp [keyword.property], fun t ht => (hexpr e t ht).1⟩
  | var keyword name initializer semicolon =>
    have hinitializer : ∀ t ∈ initializerTokens initializer,
        t.kind ≠ .semicolon ∧ t.kind.startsStatement = false := by
      cases initializer with
      | none => exact List.forall_mem_nil _
      | some i =>
        obtain ⟨equals, e⟩ := i
        refine List.forall_mem_cons.mpr ⟨?_, hexpr e⟩
        simp [equals.property, TokenKind.startsStatement]
    refine ⟨keyword.val, name.val :: initializerTokens initializer, semicolon, rfl, ?_, ?_⟩
    · simpa [keyword.property, name.property] using fun t ht => (hinitializer t ht).1
    · simpa [name.property, TokenKind.startsStatement] using fun t ht => (hinitializer t ht).2
  | block left body right => exact absurd rfl hd

theorem StmtTree.head_startsStatement {d : StmtTree}
    (hd : d.keyword? = some .print ∨ d.keyword? = some .var) :
    ∃ t ts, d.tokens = t :: ts ∧ t.kind.startsStatement = true := by
  cases d with
  | expression e semicolon => simp [StmtTree.keyword?] at hd
  | print keyword e semicolon => exact ⟨keyword.val, _, rfl, by rw [keyword.property]; rfl⟩
  | var keyword name initializer semicolon =>
    exact ⟨keyword.val, _, rfl, by rw [keyword.property]; rfl⟩
  | block left body right => simp [StmtTree.keyword?] at hd

theorem Stmt.listRedeclared_eq_nil_of_subset {names names' : List String} (h : names ⊆ names')
    {stmts : List Stmt} (hr : Stmt.listRedeclared names' stmts = []) :
    Stmt.listRedeclared names stmts = [] := by
  obtain ⟨hnodup, hnew, hdistinct⟩ := (Stmt.listRedeclared_eq_nil_iff _ _).mp hr
  exact (Stmt.listRedeclared_eq_nil_iff _ _).mpr
    ⟨hnodup, fun x hx hmem => hnew x hx (h hmem), hdistinct⟩

section Unclosed

variable {d next : StmtTree} (hd : d.keyword? ≠ some .leftBrace)
  (hnext : next.keyword? = some .print ∨ next.keyword? = some .var)

include hd hnext

/-- A declaration without its semicolon is lost together with the next one if that begins with a
keyword: the keyword is where the first one stops, and the one token that is always passed over. -/
theorem scopeFrom_unclosed {stops : TokenKind → Bool}
    (hstops : ∀ k, stops k = true → k = .rightBrace) (hn : d.stmt.nesting ≤ room)
    (declared : List String) (rest : List Token) :
    let error : SyntaxError := ⟨d.unclosed, next.tokens.head?⟩
    let recovery : Recovery := ⟨next.tokens.length, rest.head?⟩
    let others := scopeFrom room stops declared rest
    scopeFrom room stops declared (d.tokens.dropLast ++ (next.tokens ++ rest)) =
      ⟨others.value, (d.stmt.redeclared declared).map redeclaredReport ++
        ⟨error, some recovery⟩ :: others.reports, others.rest⟩ := by
  have hblock : next.keyword? ≠ some .leftBrace := by
    rcases hnext with h | h <;> simp [h]
  obtain ⟨t, ts, hts, hstarts⟩ := StmtTree.head_startsStatement hnext
  obtain ⟨keyword, line, semicolon, htokens, hk, hs⟩ := next.exists_line hblock
  obtain ⟨rfl, -⟩ := List.cons.inj (hts.symm.trans htokens)
  have hkind : t.kind.inExpression = false := by
    cases hi : t.kind.inExpression with
    | false => rfl
    | true =>
      rw [(kind_of_inExpression hi).2.2] at hstarts
      cases hstarts
  have hfails := d.fails_unclosed hd hn hkind (hk t List.mem_cons_self) declared
    (line ++ semicolon.val :: rest)
  have hresume : resume (t :: (line ++ semicolon.val :: rest)) = rest :=
    resume_line hk hs semicolon rest
  obtain ⟨first, others, last, hfirst, -⟩ := d.exists_line hd
  obtain ⟨u, us, hu, hstop⟩ := d.head_continues hstops
  obtain ⟨rfl, -⟩ := List.cons.inj (hu.symm.trans hfirst)
  rw [hfirst, List.dropLast_concat] at hfails ⊢
  have hscope := scopeFrom_fails hstop hfails
  have hlength : (t :: (line ++ semicolon.val :: rest)).length - rest.length =
      next.tokens.length := by
    simp [htokens]
    omega
  rw [hresume, hlength] at hscope
  rw [htokens]
  simpa [htokens] using hscope

theorem scopeFrom_unclosed_between {before after : List StmtTree}
    (hn : Stmt.listNesting (StmtTree.listStmts (before ++ d :: next :: after)) ≤ room)
    (hr : Stmt.listRedeclared [] (StmtTree.listStmts (before ++ d :: next :: after)) = []) :
    let error : SyntaxError := ⟨d.unclosed, next.tokens.head?⟩
    let recovery : Recovery := ⟨next.tokens.length, (StmtTree.listTokens after).head?⟩
    scopeFrom room (fun _ => false) [] (StmtTree.listTokens before ++
        (d.tokens.dropLast ++ (next.tokens ++ StmtTree.listTokens after))) =
      ⟨StmtTree.listStmts (before ++ after), [⟨error, some recovery⟩], []⟩ := by
  intro error recovery
  let names := ((StmtTree.listStmts before).filterMap Stmt.declares).reverse
  simp only [StmtTree.listStmts_append, StmtTree.listStmts, listNesting_append, Stmt.listNesting,
    Nat.max_le] at hn
  obtain ⟨hbefore, hdn, -, hafter⟩ := hn
  simp only [StmtTree.listStmts_append, StmtTree.listStmts, Stmt.listRedeclared_append,
    Stmt.listRedeclared, List.append_eq_nil_iff, List.append_nil] at hr
  obtain ⟨hrbefore, hrd, -, hrafter⟩ := hr
  -- The names of the two that are lost are not declared where the others are read.
  have hrnames : Stmt.listRedeclared names (StmtTree.listStmts after) = [] :=
    Stmt.listRedeclared_eq_nil_of_subset (by simp [names]) hrafter
  have hstops : ∀ k : TokenKind, (fun _ => false) k = true → k = .rightBrace := by simp
  have hend : ∀ t ∈ ([] : List Token).head?, (fun _ => false) t.kind = true := by simp
  have hlast := scopeFrom_listTokens hstops after hafter names hend
  have hmiddle := scopeFrom_unclosed hd hnext hstops hdn names (StmtTree.listTokens after)
  have hfirst := scopeFrom_listTokens_append hstops before hbefore []
    (d.tokens.dropLast ++ (next.tokens ++ StmtTree.listTokens after))
  dsimp only at hmiddle hfirst
  rw [List.append_nil, hrnames] at hlast
  rw [hlast, hrd] at hmiddle
  rw [List.append_nil, hmiddle, hrbefore] at hfirst
  rw [StmtTree.listStmts_append]
  exact hfirst

end Unclosed

theorem parse_append_eof {ts suffix : List Token} (hts : ∀ t ∈ ts, t.kind ≠ .eof)
    (hs : ∀ t ∈ suffix.head?, t.kind = .eof) :
    let program := scopeFrom maxNesting (fun _ => false) [] ts
    parse (ts ++ suffix) = ⟨program.value, program.reports, endToken (ts ++ suffix)⟩ := by
  simp only [parse, takeWhile_append_eof hts hs]
  rfl

/-- Take the semicolon from an expression, `print` or `var` in a program without an error, where
`print` or `var` follows. The one error stands at that keyword, and the declaration behind it is
lost too; all others are read as before. -/
theorem parse_unclosed (before after : List StmtTree) (d next : StmtTree) (suffix : List Token)
    (hs : ∀ t ∈ suffix.head?, t.kind = .eof)
    (hok : (parse (StmtTree.listTokens (before ++ d :: next :: after) ++ suffix)).diagnostics = [])
    (hd : d.keyword? ≠ some .leftBrace)
    (hnext : next.keyword? = some .print ∨ next.keyword? = some .var) :
    let ts := StmtTree.listTokens before ++
      (d.tokens.dropLast ++ (next.tokens ++ StmtTree.listTokens after)) ++ suffix
    (parse ts).statements = StmtTree.listStmts (before ++ after) ∧
      (parse ts).diagnostics =
        [SyntaxError.diagnostic (endToken ts) ⟨d.unclosed, next.tokens.head?⟩] := by
  intro ts
  obtain ⟨hn, hr⟩ := bounds_of_parse hs hok
  have heof : ∀ t ∈ StmtTree.listTokens before ++
      (d.tokens.dropLast ++ (next.tokens ++ StmtTree.listTokens after)), t.kind ≠ .eof := by
    simp only [List.forall_mem_append]
    exact ⟨StmtTree.list_kind_ne_eof before,
      fun t ht => d.kind_ne_eof t (List.dropLast_subset _ ht), next.kind_ne_eof,
      StmtTree.list_kind_ne_eof after⟩
  have hparse := parse_append_eof heof hs
  rw [scopeFrom_unclosed_between hd hnext hn hr] at hparse
  rw [Parse.diagnostics, hparse]
  exact ⟨rfl, rfl⟩

theorem parse_unclosed_var :
    let terminal (kind : TokenKind) (lexeme : String) (start : Nat) : Terminal kind :=
      ⟨⟨kind, lexeme, none, 1, ⟨start, start + lexeme.length⟩⟩, rfl⟩
    let declaration (name : String) (start : Nat) : StmtTree :=
      .var (terminal .var "var" start) (terminal .identifier name (start + 4)) none
        (terminal .semicolon ";" (start + 5))
    let d := declaration "a" 0
    let next := declaration "b" 7
    let after := [declaration "c" 14]
    let suffix := [eofToken ⟨20, 1⟩]
    let ts := StmtTree.listTokens [] ++
      (d.tokens.dropLast ++ (next.tokens ++ StmtTree.listTokens after)) ++ suffix
    (parse (StmtTree.listTokens ([] ++ d :: next :: after) ++ suffix)).diagnostics = [] ∧
      d.keyword? ≠ some .leftBrace ∧ next.keyword? = some .var ∧
      (parse ts).statements = StmtTree.listStmts after ∧
      (parse ts).diagnostics.map Diagnostic.text =
        ["[line 1] Error at 'var': Expect ';' after variable declaration."] := by
  intro terminal declaration d next after suffix ts
  have hs : ∀ t ∈ suffix.head?, t.kind = .eof := by simp [suffix, eofToken]
  have hok : (parse (StmtTree.listTokens ([] ++ d :: next :: after) ++ suffix)).diagnostics = [] :=
    by decide +kernel
  have hd : d.keyword? ≠ some .leftBrace := by decide
  have h := parse_unclosed [] after d next suffix hs hok hd (.inr rfl)
  refine ⟨hok, hd, rfl, h.1, ?_⟩
  rw [h.2]
  decide

theorem statements_unclosed_print :
    let ts := (scan "print 1; print 2;").tokens
    (parse ts).diagnostics = [] ∧
      (parse ts).statements.map Stmt.text = ["(print 1)", "(print 2)"] ∧
      (ts.eraseIdx 2).map Token.kind = [.print, .number, .print, .number, .semicolon, .eof] ∧
      (parse (ts.eraseIdx 2)).statements ≠ (parse ts).statements.eraseIdx 0 := by
  intro ts
  refine ⟨by decide +kernel, by decide +kernel, by decide +kernel, ?_⟩
  intro h
  have hlength : (parse (ts.eraseIdx 2)).statements.length ≠
      ((parse ts).statements.eraseIdx 0).length := by decide +kernel
  exact hlength (congrArg List.length h)

end Treewalk
