import Treewalk.Proofs.Grammar.Complete
import Treewalk.Proofs.Grammar.Invariants

/-! Reading the declarations of a scope one after another. Every declaration passes over a token at
least, whether it is read or dropped, so the bound on the number of declarations never ends a scope
before its tokens do. -/

namespace Treewalk

variable {room : Nat} {stops : TokenKind → Bool} {declared : List String}

theorem suffix_of_cons_suffix {t u : Token} {ts us : List Token} (h : u :: us <:+ t :: ts) :
    us <:+ ts := by
  rcases List.suffix_cons_iff.mp h with he | hs
  · exact (List.cons.inj he).2 ▸ List.suffix_refl us
  · exact (List.suffix_cons u us).trans hs

theorem resume_suffix (t : Token) (ts : List Token) : resume (t :: ts) <:+ ts := by
  induction ts generalizing t with
  | nil =>
    rw [resume]
    split <;> exact List.suffix_refl _
  | cons u us ih =>
    rw [resume]
    split
    · exact List.suffix_refl _
    · exact (ih u).trans (List.suffix_cons u us)

theorem declaration_reads_suffix {t : Token} {ts rest : List Token} {stmt : Stmt}
    {reports : List SyntaxReport}
    (h : (declarationRule room (innerBlockRule room) declared).Reads (t :: ts) stmt reports rest) :
    rest <:+ ts := by
  let I := textInvariant ts
  have hts : I.remaining ts := List.suffix_refl ts
  rcases declarationRule_reads.mp h with
    ⟨u, mid, he, -, h₁⟩ | ⟨u, mid, he, -, h₁⟩ | ⟨u, mid, he, -, h₁⟩ | ⟨-, h₁⟩
  · cases he
    exact (varRule_keeps declared).remaining_of_reads hts h₁
  · cases he
    exact (printRule_keeps t).remaining_of_reads hts h₁
  · cases he
    obtain ⟨body, hbody, -⟩ := blockStatementRule_reads.mp h₁
    obtain ⟨rule, hrule, hread⟩ := Rule.reads_nested.mp hbody
    exact (innerBlockRule_keeps I room rule hrule).remaining_of_reads hts hread
  · -- No keyword has been taken here; it is the semicolon that is one token at least.
    obtain ⟨e, semicolon, he, -, -⟩ := expressionStatementRule_reads.mp h₁
    have hrest : semicolon :: rest <:+ t :: ts :=
      (expressionRule_keeps (textInvariant (t :: ts)).toExpressionInvariant
        room).remaining_of_reads (List.suffix_refl _) he
    exact suffix_of_cons_suffix hrest

theorem recovering_suffix (room : Nat) (declared : List String) (t : Token) (ts : List Token) :
    (recovering (declarationRule room (innerBlockRule room) declared) (t :: ts)).rest <:+ ts := by
  have hkeeps := declaration_keeps (textInvariant (t :: ts)) room declared (t :: ts)
    (List.suffix_refl _)
  unfold recovering
  split
  · rename_i stmt reports rest he
    exact declaration_reads_suffix he
  · rename_i e reports rest he
    have hrest : rest <:+ t :: ts := by
      have hr := hkeeps.remaining
      rwa [he] at hr
    cases rest with
    | nil => exact List.nil_suffix
    | cons u us => exact (resume_suffix u us).trans (suffix_of_cons_suffix hrest)

theorem scopeReading_congr {count count' : Nat} {ts : List Token} (hc : ts.length ≤ count)
    (hc' : ts.length ≤ count') :
    scopeReading (declarationRule room (innerBlockRule room)) stops count declared ts =
      scopeReading (declarationRule room (innerBlockRule room)) stops count' declared ts := by
  induction count generalizing count' declared ts with
  | zero =>
    obtain rfl := List.length_eq_zero_iff.mp (Nat.le_zero.mp hc)
    cases count' <;> rfl
  | succ count ih =>
    cases ts with
    | nil => cases count' <;> rfl
    | cons t ts =>
      rw [List.length_cons] at hc hc'
      obtain ⟨c, rfl⟩ : ∃ c, count' = c + 1 := ⟨count' - 1, by omega⟩
      have hlen := (recovering_suffix room declared t ts).length_le
      have hothers : ∀ names, scopeReading (declarationRule room (innerBlockRule room)) stops count
          names _ = scopeReading (declarationRule room (innerBlockRule room)) stops c names _ :=
        fun _ => ih (Nat.le_trans hlen (by omega)) (Nat.le_trans hlen (by omega))
      simp only [scopeReading, hothers]

/-- The statements of a scope in which the given names are declared already. -/
def scopeFrom (room : Nat) (stops : TokenKind → Bool) (declared : List String) (ts : List Token) :
    Reading (List Stmt) :=
  scopeReading (declarationRule room (innerBlockRule room)) stops ts.length declared ts

theorem scopeFrom_cons (room : Nat) (declared : List String) {t : Token}
    (ht : stops t.kind = false) (ts : List Token) :
    let first := recovering (declarationRule room (innerBlockRule room) declared) (t :: ts)
    let others :=
      scopeFrom room stops ((first.value.bind Stmt.declares).toList ++ declared) first.rest
    scopeFrom room stops declared (t :: ts) =
      ⟨first.value.toList ++ others.value, first.reports ++ others.reports, others.rest⟩ := by
  intro first others
  have hlen : first.rest.length ≤ ts.length := (recovering_suffix room declared t ts).length_le
  have hothers : scopeReading (declarationRule room (innerBlockRule room)) stops ts.length
      ((first.value.bind Stmt.declares).toList ++ declared) first.rest = others :=
    scopeReading_congr hlen (Nat.le_refl _)
  rw [scopeFrom, List.length_cons, scopeReading, ht, ← hothers]
  rfl

theorem scopeFrom_reads {t : Token} {ts rest : List Token} {stmt : Stmt}
    {reports : List SyntaxReport} (ht : stops t.kind = false)
    (h : (declarationRule room (innerBlockRule room) declared).Reads (t :: ts) stmt reports rest) :
    let others := scopeFrom room stops (stmt.declares.toList ++ declared) rest
    scopeFrom room stops declared (t :: ts) =
      ⟨stmt :: others.value, reports ++ others.reports, others.rest⟩ := by
  have hcons := scopeFrom_cons room declared ht ts
  rw [recovering_of_reads h] at hcons
  exact hcons

/-- A declaration that fails leaves nothing behind but the reports; the scope goes on where reading
resumes, with the same names. -/
theorem scopeFrom_fails {t : Token} {ts rest : List Token} {e : SyntaxError}
    {reports : List SyntaxReport} (ht : stops t.kind = false)
    (h : (declarationRule room (innerBlockRule room) declared).Fails (t :: ts) e reports rest) :
    let recovery : Recovery := ⟨rest.length - (resume rest).length, (resume rest).head?⟩
    let others := scopeFrom room stops declared (resume rest)
    scopeFrom room stops declared (t :: ts) =
      ⟨others.value, reports ++ ⟨e, some recovery⟩ :: others.reports, others.rest⟩ := by
  intro recovery others
  have h : declarationRule room (innerBlockRule room) declared (t :: ts) =
    ⟨.error e, reports, rest⟩ := h
  have hfirst : recovering (declarationRule room (innerBlockRule room) declared) (t :: ts) =
      ⟨none, reports ++ [⟨e, some recovery⟩], resume rest⟩ := by
    simp [recovering, h, recovery]
  have hcons := scopeFrom_cons room declared ht ts
  rw [hfirst] at hcons
  simpa using hcons

theorem declaration_reads_block (declared : List String) (left : Terminal .leftBrace)
    (right : Terminal .rightBrace) {ts rest : List Token} {body : List Stmt}
    {reports : List SyntaxReport}
    (h : scopeFrom room (· = .rightBrace) [] ts = ⟨body, reports, right.val :: rest⟩) :
    (declarationRule (room + 1) (innerBlockRule (room + 1)) declared).Reads (left.val :: ts)
      (.block body) reports rest := by
  have hblock : (blockRule room (innerBlockRule room)).Reads ts body reports rest :=
    blockRule_reads.mpr ⟨right.val, h, right.property⟩
  have hnested : (Rule.nested left.val (innerBlockRule (room + 1))).Reads ts body reports rest :=
    Rule.reads_nested.mpr ⟨_, rfl, hblock⟩
  exact declarationRule_reads.mpr (.inr (.inr (.inl ⟨left.val, ts, rfl, left.property,
    blockStatementRule_reads.mpr ⟨body, hnested, rfl⟩⟩)))

theorem reverse_declares_cons (stmt : Stmt) (stmts : List Stmt) (declared : List String) :
    ((stmt :: stmts).filterMap Stmt.declares).reverse ++ declared =
      (stmts.filterMap Stmt.declares).reverse ++ (stmt.declares.toList ++ declared) := by
  cases hd : stmt.declares <;> simp [hd]

theorem Stmt.listRedeclared_append (declared : List String) (xs ys : List Stmt) :
    Stmt.listRedeclared declared (xs ++ ys) = Stmt.listRedeclared declared xs ++
      Stmt.listRedeclared ((xs.filterMap Stmt.declares).reverse ++ declared) ys := by
  induction xs generalizing declared with
  | nil => rfl
  | cons x xs ih =>
    rw [List.cons_append, Stmt.listRedeclared, Stmt.listRedeclared, ih, reverse_declares_cons,
      List.append_assoc]

theorem StmtTree.listStmts_append (xs ys : List StmtTree) :
    StmtTree.listStmts (xs ++ ys) = StmtTree.listStmts xs ++ StmtTree.listStmts ys := by
  induction xs with
  | nil => rfl
  | cons x xs ih => rw [List.cons_append, StmtTree.listStmts, StmtTree.listStmts, ih,
      List.cons_append]

theorem StmtTree.listTokens_append (xs ys : List StmtTree) :
    StmtTree.listTokens (xs ++ ys) = StmtTree.listTokens xs ++ StmtTree.listTokens ys := by
  induction xs with
  | nil => rfl
  | cons x xs ih =>
    rw [List.cons_append, StmtTree.listTokens, StmtTree.listTokens, ih, List.append_assoc]

section Derived

variable (hstops : ∀ k, stops k = true → k = .rightBrace)

include hstops

theorem stops_eq_false {k : TokenKind} (hk : k ≠ .rightBrace) : stops k = false := by
  cases hs : stops k with
  | false => rfl
  | true => exact absurd (hstops k hs) hk

theorem StmtTree.head_continues (d : StmtTree) :
    ∃ t ts, d.tokens = t :: ts ∧ stops t.kind = false := by
  obtain ⟨t, ts, ht, hk⟩ := d.head
  exact ⟨t, ts, ht, stops_eq_false hstops hk⟩

theorem scopeFrom_tokens_append (d : StmtTree) (hn : d.stmt.nesting ≤ room)
    (declared : List String) (rest : List Token) :
    let others := scopeFrom room stops (d.stmt.declares.toList ++ declared) rest
    scopeFrom room stops declared (d.tokens ++ rest) =
      ⟨d.stmt :: others.value,
        (d.stmt.redeclared declared).map redeclaredReport ++ others.reports, others.rest⟩ := by
  have hd : (declarationRule room (innerBlockRule room) declared).Reads (d.tokens ++ rest) _ _ _ :=
    d.reads hn
  obtain ⟨t, ts, ht, hk⟩ := d.head_continues hstops
  rw [ht] at hd ⊢
  exact scopeFrom_reads hk hd

theorem scopeFrom_listTokens_append (ds : List StmtTree)
    (hn : Stmt.listNesting (StmtTree.listStmts ds) ≤ room) (declared : List String)
    (rest : List Token) :
    let names := ((StmtTree.listStmts ds).filterMap Stmt.declares).reverse
    let others := scopeFrom room stops (names ++ declared) rest
    scopeFrom room stops declared (StmtTree.listTokens ds ++ rest) =
      ⟨StmtTree.listStmts ds ++ others.value,
        (Stmt.listRedeclared declared (StmtTree.listStmts ds)).map redeclaredReport ++
          others.reports, others.rest⟩ := by
  induction ds generalizing declared with
  | nil => rfl
  | cons d ds ih =>
    rw [StmtTree.listStmts, Stmt.listNesting] at hn
    have hfirst := scopeFrom_tokens_append hstops d (Nat.le_trans (Nat.le_max_left _ _) hn) declared
      (StmtTree.listTokens ds ++ rest)
    have hothers := ih (Nat.le_trans (Nat.le_max_right _ _) hn) (d.stmt.declares.toList ++ declared)
    dsimp only at hfirst hothers ⊢
    rw [hothers] at hfirst
    rw [StmtTree.listTokens, StmtTree.listStmts, List.append_assoc, reverse_declares_cons,
      hfirst,
      Stmt.listRedeclared, List.map_append, List.append_assoc, List.cons_append]

/-- A scope is read up to where it stops. -/
theorem scopeFrom_listTokens (ds : List StmtTree)
    (hn : Stmt.listNesting (StmtTree.listStmts ds) ≤ room) (declared : List String)
    {rest : List Token} (hr : ∀ t ∈ rest.head?, stops t.kind = true) :
    scopeFrom room stops declared (StmtTree.listTokens ds ++ rest) =
      ⟨StmtTree.listStmts ds,
        (Stmt.listRedeclared declared (StmtTree.listStmts ds)).map redeclaredReport, rest⟩ :=
  StmtTree.list_reads ds hn hstops hr (Nat.le_refl _)

end Derived

end Treewalk
