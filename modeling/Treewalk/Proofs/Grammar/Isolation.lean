import Treewalk.Proofs.Grammar.Recovery

/-! One bad segment costs nothing but itself. A segment is a stretch of tokens up to a semicolon
that no declaration derives; put between two declarations, at the top level or inside blocks, it
gives one error at one of its own tokens and leaves the statements as they were. -/

namespace Treewalk

/-- Tokens of these kinds end no statement and start none, open or close no block, and assign
nothing. -/
def TokenKind.isInert (k : TokenKind) : Bool :=
  k ∉ [.semicolon, .equal, .leftBrace, .rightBrace, .eof] && !k.startsStatement

theorem kind_of_isInert {k : TokenKind} (h : k.isInert = true) :
    k ≠ .semicolon ∧ k ≠ .equal ∧ k ≠ .leftBrace ∧ k ≠ .rightBrace ∧ k ≠ .eof ∧
      k.startsStatement = false := by
  simpa [TokenKind.isInert, and_assoc] using h

/-- Inert tokens up to a semicolon, with or without `print` in front. -/
structure Segment where
  keyword : Option (Terminal .print)
  body : List Token
  semicolon : Terminal .semicolon
  inert : ∀ t ∈ body, t.kind.isInert = true

namespace Segment

def line (segment : Segment) : List Token :=
  segment.body ++ [segment.semicolon.val]

def tokens (segment : Segment) : List Token :=
  (segment.keyword.map Subtype.val).toList ++ segment.line

/-- No declaration has the tokens of the segment. -/
def Underivable (segment : Segment) : Prop :=
  ∀ d : StmtTree, d.tokens ≠ segment.tokens

def Blamed (segment : Segment) (error : SyntaxError) : Prop :=
  ∃ t ∈ segment.tokens, error.place = some t

variable (segment : Segment)

theorem mem_tokens_of_mem_line {t : Token} (h : t ∈ segment.line) : t ∈ segment.tokens :=
  List.mem_append_right _ h

theorem kind_of_mem_line : ∀ t ∈ segment.line, t.kind ≠ .leftBrace ∧ t.kind ≠ .rightBrace ∧
    t.kind ≠ .eof ∧ t.kind.startsStatement = false := by
  refine List.forall_mem_append.mpr ⟨?_, List.forall_mem_singleton.mpr ?_⟩
  · intro t ht
    exact (kind_of_isInert (segment.inert t ht)).2.2
  · simp [segment.semicolon.property, TokenKind.startsStatement]

theorem line_append (rest : List Token) :
    segment.line ++ rest = segment.body ++ segment.semicolon.val :: rest := by
  simp [line]

theorem head_line {left : List Token} (hleft : left <:+ segment.body) (rest : List Token) :
    ∃ t ts, left ++ segment.semicolon.val :: rest = t :: ts ∧ t ∈ segment.line := by
  cases left with
  | nil => exact ⟨_, rest, rfl, List.mem_append_right _ List.mem_cons_self⟩
  | cons t ts => exact ⟨t, _, rfl, List.mem_append_left _ (hleft.subset List.mem_cons_self)⟩

theorem head (rest : List Token) :
    ∃ t ts, segment.tokens ++ rest = t :: ts ∧ t.kind ≠ .rightBrace := by
  cases hk : segment.keyword with
  | none =>
    obtain ⟨t, ts, hts, ht⟩ := segment.head_line (List.suffix_refl _) rest
    rw [← line_append] at hts
    exact ⟨t, ts, by simpa [tokens, hk] using hts, (segment.kind_of_mem_line t ht).2.1⟩
  | some keyword =>
    exact ⟨keyword.val, segment.line ++ rest, by simp [tokens, hk], by simp [keyword.property]⟩

/-- Only its first token tells what kind of declaration a segment could be, so all depends on what
stands up to the semicolon. -/
theorem underivable_iff :
    segment.Underivable ↔ ∀ e : ExprTree .assignment, e.tokens ≠ segment.body := by
  constructor
  · intro h e he
    cases hk : segment.keyword with
    | none =>
      exact h (.expression e segment.semicolon) (by simp [tokens, line, StmtTree.tokens, hk, he])
    | some keyword =>
      exact h (.print keyword e segment.semicolon) (by simp [tokens, line, StmtTree.tokens, hk, he])
  · intro h d hd
    cases hk : segment.keyword with
    | none =>
      have hline : d.tokens = segment.line := by simpa [tokens, hk] using hd
      have hkind : ∀ t ∈ d.tokens, _ := hline ▸ segment.kind_of_mem_line
      cases d with
      | expression e semicolon => exact h e (List.append_inj' hline rfl).1
      | print keyword e semicolon =>
        have hstarts := (hkind keyword.val List.mem_cons_self).2.2.2
        rw [keyword.property] at hstarts
        cases hstarts
      | var keyword name initializer semicolon =>
        have hstarts := (hkind keyword.val List.mem_cons_self).2.2.2
        rw [keyword.property] at hstarts
        cases hstarts
      | block left body right => exact (hkind left.val List.mem_cons_self).1 left.property
    | some keyword =>
      have htokens : d.tokens = keyword.val :: segment.line := by simpa [tokens, hk] using hd
      have hprint : ∀ t ∈ d.tokens.head?, t.kind = .print := by
        rw [htokens]
        rintro t ⟨⟩
        exact keyword.property
      cases d with
      | expression e semicolon =>
        obtain ⟨t, ts, ht, hopens⟩ := e.head
        exact (kind_of_opensExpression hopens).2.1 (hprint t (by simp [StmtTree.tokens, ht]))
      | print keyword e semicolon => exact h e (List.append_inj' (List.cons.inj htokens).2 rfl).1
      | var keyword name initializer semicolon =>
        have hvar := hprint keyword.val rfl
        rw [keyword.property] at hvar
        cases hvar
      | block left body right =>
        have hblock := hprint left.val rfl
        rw [left.property] at hblock
        cases hblock

/-- While an expression is read in the segment, what remains begins inside it. Nothing is assigned,
so nothing is reported unless reading stops. -/
def invariant (rest : List Token) : ExpressionInvariant where
  remaining ts := ∃ left, left <:+ segment.body ∧ ts = left ++ segment.semicolon.val :: rest
  taken t := t ∈ segment.line
  stopped := segment.Blamed
  reported _ := False
  taken_head := by
    rintro t ts ⟨left, hleft, he⟩
    obtain ⟨u, us, hu, hmem⟩ := segment.head_line hleft rest
    rw [(List.cons.inj (he.trans hu)).1]
    exact hmem
  remaining_tail := by
    rintro t ts ⟨left, hleft, he⟩ hk
    cases left with
    | nil =>
      obtain ⟨rfl, -⟩ := List.cons.inj he
      exact absurd segment.semicolon.property (kind_of_inExpression hk).1
    | cons u us =>
      obtain ⟨-, rfl⟩ := List.cons.inj he
      exact ⟨us, (List.suffix_cons u us).trans hleft, rfl⟩
  stopped_here := by
    rintro ts fault ⟨left, hleft, rfl⟩
    obtain ⟨u, us, hu, hmem⟩ := segment.head_line hleft rest
    exact ⟨u, segment.mem_tokens_of_mem_line hmem, by rw [hu]; rfl⟩
  stopped_opener h := ⟨_, segment.mem_tokens_of_mem_line h, rfl⟩
  reported_target := by
    intro t ht hk
    rcases List.mem_append.mp ht with hbody | hsemicolon
    · exact (kind_of_isInert (segment.inert t hbody)).2.1 hk
    · rw [List.mem_singleton.mp hsemicolon, segment.semicolon.property] at hk
      cases hk

theorem terminated_fails (h : segment.Underivable) {room : Nat} {fault : SyntaxFault}
    {f : Expr → Stmt} (rest : List Token) :
    ∃ error left, (do
        let e ← expressionRule room
        let _ ← Rule.expect .semicolon fault
        return f e : Rule Stmt).Fails (segment.line ++ rest) error []
          (left ++ segment.semicolon.val :: rest) ∧
      left <:+ segment.body ∧ segment.Blamed error := by
  have hkeeps := expressionRule_keeps (segment.invariant rest) room (segment.line ++ rest)
    ⟨segment.body, List.suffix_refl _, segment.line_append rest⟩
  rcases he : expressionRule room (segment.line ++ rest) with ⟨result, reports, mid⟩
  rw [he] at hkeeps
  obtain ⟨⟨left, hleft, rfl⟩, hreports, hvalue⟩ := hkeeps
  obtain rfl : reports = [] := List.eq_nil_iff_forall_not_mem.mpr hreports
  cases result with
  | error error => exact ⟨error, left, Rule.fails_bind he, hleft, hvalue⟩
  | ok e =>
    cases left with
    | nil =>
      -- The expression ends where the semicolon stands, so the segment would be a statement.
      obtain ⟨d, -, hd, -⟩ := expressionRule_derives he
      rw [line_append] at hd
      exact absurd (List.append_cancel_right hd) (segment.underivable_iff.mp h d)
    | cons t ts =>
      have ht := hleft.subset List.mem_cons_self
      have hk := (kind_of_isInert (segment.inert t ht)).1
      exact ⟨⟨fault, some t⟩, t :: ts, Treewalk.terminated_fails he hk, hleft, t,
        segment.mem_tokens_of_mem_line (List.mem_append_left _ ht), rfl⟩

theorem declaration_fails (h : segment.Underivable) (room : Nat) (declared : List String)
    (rest : List Token) :
    ∃ error left, (declarationRule room (innerBlockRule room) declared).Fails
        (segment.tokens ++ rest) error [] (left ++ segment.semicolon.val :: rest) ∧
      left <:+ segment.body ∧ segment.Blamed error := by
  cases hk : segment.keyword with
  | none =>
    have hhead : ∀ t ∈ (segment.line ++ rest).head?,
        t.kind ≠ .var ∧ t.kind ≠ .print ∧ t.kind ≠ .leftBrace := by
      obtain ⟨t, ts, hts, ht⟩ := segment.head_line (List.suffix_refl _) rest
      obtain ⟨hbrace, -, -, hstarts⟩ := segment.kind_of_mem_line t ht
      rw [line_append, hts]
      rintro u ⟨⟩
      refine ⟨?_, ?_, hbrace⟩ <;> intro he <;> simp [he, TokenKind.startsStatement] at hstarts
    have htokens : segment.tokens = segment.line := by simp [tokens, hk]
    rw [htokens]
    unfold Rule.Fails
    rw [declarationRule_expression hhead]
    exact segment.terminated_fails h rest
  | some keyword =>
    have htokens : segment.tokens = keyword.val :: segment.line := by simp [tokens, hk]
    rw [htokens, List.cons_append]
    unfold Rule.Fails
    rw [declarationRule_print keyword.property]
    exact segment.terminated_fails h rest

/-- The segment is dropped up to its semicolon, and the scope goes on as if it were not there. -/
theorem scopeFrom_tokens_append (h : segment.Underivable) {stops : TokenKind → Bool}
    (hstops : ∀ k, stops k = true → k = .rightBrace) (room : Nat) (declared : List String)
    (rest : List Token) :
    let others := scopeFrom room stops declared rest
    ∃ report : SyntaxReport, segment.Blamed report.error ∧
      scopeFrom room stops declared (segment.tokens ++ rest) =
        ⟨others.value, report :: others.reports, others.rest⟩ := by
  obtain ⟨error, left, hfails, hleft, hblamed⟩ := segment.declaration_fails h room declared rest
  have hresume : resume (left ++ segment.semicolon.val :: rest) = rest := by
    have hkind : ∀ t ∈ left, t.kind ≠ .semicolon ∧ t.kind.startsStatement = false := by
      intro t ht
      obtain ⟨hk, -, -, -, -, hs⟩ := kind_of_isInert (segment.inert t (hleft.subset ht))
      exact ⟨hk, hs⟩
    exact resume_line (fun t ht => (hkind t ht).1)
      (fun t ht => (hkind t (List.mem_of_mem_tail ht)).2) segment.semicolon rest
  obtain ⟨t, ts, hts, hk⟩ := segment.head rest
  rw [hts] at hfails ⊢
  have hscope := scopeFrom_fails (stops_eq_false hstops hk) hfails
  rw [hresume] at hscope
  exact ⟨_, hblamed, hscope⟩

end Segment

/-- The declarations leave a boundary between the tokens before and those behind it: in front of a
declaration or at the end, at the top level or inside blocks. -/
inductive Boundary : List StmtTree → List Token → List Token → Prop where
  | here (ds : List StmtTree) : Boundary ds [] (StmtTree.listTokens ds)
  | later (d : StmtTree) {ds : List StmtTree} {before behind : List Token}
      (h : Boundary ds before behind) : Boundary (d :: ds) (d.tokens ++ before) behind
  | inside (left : Terminal .leftBrace) (right : Terminal .rightBrace) (ds : List StmtTree)
      {body : List StmtTree} {before behind : List Token} (h : Boundary body before behind) :
      Boundary (.block left body right :: ds) (left.val :: before)
        (behind ++ right.val :: StmtTree.listTokens ds)

theorem Boundary.append_eq {ds : List StmtTree} {before behind : List Token}
    (h : Boundary ds before behind) : before ++ behind = StmtTree.listTokens ds := by
  induction h with
  | here ds => rfl
  | later d h ih => rw [List.append_assoc, ih, StmtTree.listTokens]
  | inside left right ds h ih =>
    simp [StmtTree.listTokens, StmtTree.tokens, ← ih]

theorem Boundary.scopeFrom_insert {ds : List StmtTree} {before behind : List Token}
    (h : Boundary ds before behind) {segment : Segment} (hbad : segment.Underivable)
    {room : Nat} {stops : TokenKind → Bool} {declared : List String} {rest : List Token}
    (hstops : ∀ k, stops k = true → k = .rightBrace)
    (hrest : ∀ t ∈ rest.head?, stops t.kind = true)
    (hn : Stmt.listNesting (StmtTree.listStmts ds) ≤ room)
    (hr : Stmt.listRedeclared declared (StmtTree.listStmts ds) = []) :
    ∃ report : SyntaxReport, segment.Blamed report.error ∧
      scopeFrom room stops declared (before ++ (segment.tokens ++ (behind ++ rest))) =
        ⟨StmtTree.listStmts ds, [report], rest⟩ := by
  induction h generalizing room stops declared rest with
  | here ds =>
    obtain ⟨report, hblamed, hscope⟩ := segment.scopeFrom_tokens_append hbad hstops room declared
      (StmtTree.listTokens ds ++ rest)
    rw [scopeFrom_listTokens hstops ds hn declared hrest, hr] at hscope
    exact ⟨report, hblamed, hscope⟩
  | @later d ds before behind h ih =>
    rw [StmtTree.listStmts, Stmt.listNesting, Nat.max_le] at hn
    rw [StmtTree.listStmts, Stmt.listRedeclared, List.append_eq_nil_iff] at hr
    obtain ⟨report, hblamed, hothers⟩ := ih hstops hrest hn.2 hr.2
    have hscope := scopeFrom_tokens_append hstops d hn.1 declared
      (before ++ (segment.tokens ++ (behind ++ rest)))
    rw [hothers, hr.1] at hscope
    exact ⟨report, hblamed, by simpa [StmtTree.listStmts] using hscope⟩
  | @inside left right ds body before behind h ih =>
    rw [StmtTree.listStmts, Stmt.listNesting, StmtTree.stmt, Stmt.nesting, Nat.max_le] at hn
    rw [StmtTree.listStmts, Stmt.listRedeclared, StmtTree.stmt, Stmt.redeclared,
      List.append_eq_nil_iff] at hr
    obtain ⟨r, rfl⟩ : ∃ r, room = r + 1 := ⟨room - 1, by omega⟩
    let after := StmtTree.listTokens ds ++ rest
    obtain ⟨report, hblamed, hbody⟩ : ∃ report : SyntaxReport, segment.Blamed report.error ∧
        scopeFrom r (· = .rightBrace) []
            (before ++ (segment.tokens ++ (behind ++ right.val :: after))) =
          ⟨StmtTree.listStmts body, [report], right.val :: after⟩ :=
      ih (by simp) (by simp [right.property]) (Nat.le_of_succ_le_succ hn.1) hr.1
    have hbrace : stops left.val.kind = false := stops_eq_false hstops (by simp [left.property])
    have hscope := scopeFrom_reads hbrace (declaration_reads_block declared left right hbody)
    rw [scopeFrom_listTokens hstops ds hn.2 _ hrest] at hscope
    rw [hr.2] at hscope
    exact ⟨report, hblamed, by simpa [after, StmtTree.listStmts, StmtTree.stmt] using hscope⟩

theorem Segment.kind_ne_eof (segment : Segment) : ∀ t ∈ segment.tokens, t.kind ≠ .eof := by
  refine List.forall_mem_append.mpr ⟨?_, fun t ht => (segment.kind_of_mem_line t ht).2.2.1⟩
  cases segment.keyword with
  | none => exact List.forall_mem_nil _
  | some keyword => exact List.forall_mem_singleton.mpr (by simp [keyword.property])

/-- Put a bad segment at a boundary between declarations of a program without an error. The same
statements are read, and there is one error, at a token of the segment. -/
theorem parse_insert_segment (ds : List StmtTree) (before behind suffix : List Token)
    (segment : Segment) (hboundary : Boundary ds before behind)
    (hs : ∀ t ∈ suffix.head?, t.kind = .eof)
    (hok : (parse (before ++ behind ++ suffix)).diagnostics = []) (hbad : segment.Underivable) :
    (parse (before ++ segment.tokens ++ behind ++ suffix)).statements =
        (parse (before ++ behind ++ suffix)).statements ∧
      ∃ d : Diagnostic, (parse (before ++ segment.tokens ++ behind ++ suffix)).diagnostics = [d] ∧
        ∃ t ∈ segment.tokens, d.span = t.span ∧ d.line = t.line := by
  have htokens := hboundary.append_eq
  have heof : ∀ t ∈ before ++ behind, t.kind ≠ .eof := by
    rw [htokens]
    exact StmtTree.list_kind_ne_eof ds
  rw [htokens] at hok
  obtain ⟨hn, hr⟩ := bounds_of_parse hs hok
  have hstatements : (parse (before ++ behind ++ suffix)).statements = StmtTree.listStmts ds := by
    rw [htokens, parse, takeWhile_listTokens ds hs, programReading_listTokens hn]
  have hinserted : ∀ t ∈ before ++ segment.tokens ++ behind, t.kind ≠ .eof := by
    obtain ⟨hbefore, hbehind⟩ := List.forall_mem_append.mp heof
    exact List.forall_mem_append.mpr
      ⟨List.forall_mem_append.mpr ⟨hbefore, segment.kind_ne_eof⟩, hbehind⟩
  obtain ⟨report, ⟨t, ht, hplace⟩, hscope⟩ : ∃ report : SyntaxReport,
      segment.Blamed report.error ∧ scopeFrom maxNesting (fun _ => false) []
        (before ++ (segment.tokens ++ (behind ++ []))) = ⟨StmtTree.listStmts ds, [report], []⟩ :=
    hboundary.scopeFrom_insert hbad (by simp) (by simp) hn hr
  have hparse := parse_append_eof hinserted hs
  simp only [List.append_nil, ← List.append_assoc] at hscope
  rw [hscope] at hparse
  rw [hstatements, Parse.diagnostics, hparse]
  refine ⟨rfl, _, rfl, t, ht, ?_⟩
  simp [SyntaxError.diagnostic, hplace]

theorem parse_insert_segment_block :
    let terminal (kind : TokenKind) (lexeme : String) (start : Nat) : Terminal kind :=
      ⟨⟨kind, lexeme, none, 1, ⟨start, start + lexeme.length⟩⟩, rfl⟩
    let left := terminal .leftBrace "\x7b" 0
    let right := terminal .rightBrace "\x7d" 20
    let declaration : StmtTree :=
      .var (terminal .var "var" 2) (terminal .identifier "a" 6) none (terminal .semicolon ";" 7)
    let segment : Segment :=
      { keyword := some (terminal .print "print" 9)
        body := [(terminal .star "*" 15).val, (terminal .identifier "a" 17).val]
        semicolon := terminal .semicolon ";" 18
        inert := by decide }
    let before := left.val :: (declaration.tokens ++ [])
    let behind := StmtTree.listTokens [] ++ right.val :: StmtTree.listTokens []
    Boundary [.block left [declaration] right] before behind ∧
      (parse (before ++ behind ++ [])).diagnostics = [] ∧ segment.Underivable ∧
      (parse (before ++ segment.tokens ++ behind ++ [])).statements =
        (parse (before ++ behind ++ [])).statements ∧
      ∃ d : Diagnostic, (parse (before ++ segment.tokens ++ behind ++ [])).diagnostics = [d] ∧
        ∃ t ∈ segment.tokens, d.span = t.span ∧ d.line = t.line := by
  intro terminal left right declaration segment before behind
  have hboundary : Boundary [.block left [declaration] right] before behind :=
    .inside left right [] (.later declaration (.here []))
  have hok : (parse (before ++ behind ++ [])).diagnostics = [] := by decide +kernel
  have hbad : segment.Underivable := by
    refine segment.underivable_iff.mpr fun e he => ?_
    obtain ⟨t, ts, ht, hopens⟩ := e.head
    obtain ⟨rfl, -⟩ := List.cons.inj (ht.symm.trans he)
    cases hopens
  exact ⟨hboundary, hok, hbad,
    parse_insert_segment _ before behind [] segment hboundary (by simp) hok hbad⟩

end Treewalk
