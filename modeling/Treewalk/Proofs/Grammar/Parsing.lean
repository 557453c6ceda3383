import Treewalk.Proofs.Grammar.Complete
import Treewalk.Proofs.Grammar.Sound
import Treewalk.Proofs.Grammar.Unambiguous
import Treewalk.Proofs.Grammar.Vocabulary

/-! Parsing and the grammar. Parsing without an error is the same as being derived within the
nesting limit without declaring a name twice in a scope, and the parsed statements are those of the
only derivation. -/

namespace Treewalk

mutual

theorem Stmt.redeclared_eq_nil_iff : ∀ (declared : List String) (stmt : Stmt),
    stmt.redeclared declared = [] ↔ (∀ x ∈ stmt.declares, x ∉ declared) ∧ stmt.DistinctNames
  | declared, .expression _ => by simp [Stmt.redeclared, Stmt.declares, Stmt.DistinctNames]
  | declared, .print _ _ => by simp [Stmt.redeclared, Stmt.declares, Stmt.DistinctNames]
  | declared, .var name _ => by simp [Stmt.redeclared, Stmt.declares, Stmt.DistinctNames]
  | declared, .block body => by
    have hb := Stmt.listRedeclared_eq_nil_iff [] body
    simpa [Stmt.redeclared, Stmt.declares, Stmt.DistinctNames] using hb

theorem Stmt.listRedeclared_eq_nil_iff : ∀ (declared : List String) (stmts : List Stmt),
    Stmt.listRedeclared declared stmts = [] ↔
      (stmts.filterMap Stmt.declares).Nodup ∧ (∀ x ∈ stmts.filterMap Stmt.declares, x ∉ declared) ∧
        Stmt.ListDistinctNames stmts
  | declared, [] => by simp [Stmt.listRedeclared, Stmt.ListDistinctNames]
  | declared, stmt :: rest => by
    have hs := stmt.redeclared_eq_nil_iff declared
    have hr := Stmt.listRedeclared_eq_nil_iff (stmt.declares.toList ++ declared) rest
    rw [Stmt.listRedeclared, List.append_eq_nil_iff, hs, hr, Stmt.ListDistinctNames]
    cases hd : stmt.declares with
    | none => grind
    | some x => grind

end

mutual

theorem StmtTree.kind_ne_eof : ∀ d : StmtTree, ∀ t ∈ d.tokens, t.kind ≠ .eof
  | .expression e semicolon => by
    simpa [StmtTree.tokens, semicolon.property, or_imp, forall_and] using e.kind_ne_eof
  | .print keyword e semicolon => by
    simpa [StmtTree.tokens, keyword.property, semicolon.property, or_imp, forall_and] using
      e.kind_ne_eof
  | .var keyword name none semicolon => by
    simp [StmtTree.tokens, initializerTokens, keyword.property, name.property, semicolon.property]
  | .var keyword name (some (equals, e)) semicolon => by
    simpa [StmtTree.tokens, initializerTokens, keyword.property, name.property, equals.property,
      semicolon.property, or_imp, forall_and] using e.kind_ne_eof
  | .block left body right => by
    simpa [StmtTree.tokens, left.property, right.property, or_imp, forall_and] using
      StmtTree.list_kind_ne_eof body

theorem StmtTree.list_kind_ne_eof : ∀ ds : List StmtTree,
    ∀ t ∈ StmtTree.listTokens ds, t.kind ≠ .eof
  | [] => by simp [StmtTree.listTokens]
  | d :: ds => by
    simpa [StmtTree.listTokens, or_imp, forall_and] using
      ⟨d.kind_ne_eof, StmtTree.list_kind_ne_eof ds⟩

end

theorem takeWhile_append_eof {ts suffix : List Token} (hts : ∀ t ∈ ts, t.kind ≠ .eof)
    (h : ∀ t ∈ suffix.head?, t.kind = .eof) :
    (ts ++ suffix).takeWhile (·.kind ≠ .eof) = ts := by
  rw [List.takeWhile_append_of_pos (by simpa using hts)]
  cases suffix with
  | nil => simp
  | cons t suffix => simp [h t (by simp)]

theorem takeWhile_listTokens (ds : List StmtTree) {suffix : List Token}
    (h : ∀ t ∈ suffix.head?, t.kind = .eof) :
    (StmtTree.listTokens ds ++ suffix).takeWhile (·.kind ≠ .eof) = StmtTree.listTokens ds :=
  takeWhile_append_eof (StmtTree.list_kind_ne_eof ds) h

theorem programReading_listTokens {ds : List StmtTree}
    (h : Stmt.listNesting (StmtTree.listStmts ds) ≤ maxNesting) :
    programReading (StmtTree.listTokens ds) =
      ⟨StmtTree.listStmts ds,
        (Stmt.listRedeclared [] (StmtTree.listStmts ds)).map redeclaredReport, []⟩ := by
  have hr : scopeOf maxNesting (innerBlockRule maxNesting) (fun _ => false)
      (StmtTree.listTokens ds ++ []) = ⟨_, _, []⟩ :=
    StmtTree.list_reads ds h (by simp) (by simp) (Nat.le_refl _)
  rwa [List.append_nil] at hr

theorem exists_derivation {ts : List Token} (h : (programReading ts).reports = []) :
    ∃ ds : List StmtTree, StmtTree.listTokens ds = ts ∧
      StmtTree.listStmts ds = (programReading ts).value ∧
      Stmt.listNesting (programReading ts).value ≤ maxNesting := by
  rcases hp : programReading ts with ⟨stmts, reports, rest⟩
  rw [hp] at h
  obtain rfl := h
  obtain ⟨ds, hds, ht, hn, hstop⟩ := scope_derives maxNesting hp
  cases rest with
  | nil => exact ⟨ds, by simpa using ht, hds, hn⟩
  | cons t rest => simp at hstop

theorem distinctNames_parse {ts : List Token} (h : (parse ts).diagnostics = []) :
    ((parse ts).statements.filterMap Stmt.declares).Nodup ∧
      Stmt.ListDistinctNames (parse ts).statements := by
  have hr : (programReading (ts.takeWhile (·.kind ≠ .eof))).reports = [] :=
    List.map_eq_nil_iff.mp h
  obtain ⟨ds, ht, hs, hn⟩ := exists_derivation hr
  rw [← ht, programReading_listTokens (by rwa [hs])] at hr
  have hd := (Stmt.listRedeclared_eq_nil_iff _ _).mp (List.map_eq_nil_iff.mp hr)
  rw [hs] at hd
  exact ⟨hd.1, hd.2.2⟩

theorem bounds_of_parse {ds : List StmtTree} {suffix : List Token}
    (hs : ∀ t ∈ suffix.head?, t.kind = .eof)
    (h : (parse (StmtTree.listTokens ds ++ suffix)).diagnostics = []) :
    Stmt.listNesting (StmtTree.listStmts ds) ≤ maxNesting ∧
      Stmt.listRedeclared [] (StmtTree.listStmts ds) = [] := by
  have hr : (programReading (StmtTree.listTokens ds)).reports = [] := by
    have hr := List.map_eq_nil_iff.mp h
    rwa [parse, takeWhile_listTokens ds hs] at hr
  have hn : Stmt.listNesting (StmtTree.listStmts ds) ≤ maxNesting := by
    obtain ⟨ds', ht, hstmts, hn⟩ := exists_derivation hr
    obtain ⟨rfl, -⟩ := StmtTree.list_eq_of_tokens ds' ds (by simp) (by simp) (congrArg (· ++ []) ht)
    rwa [hstmts]
  rw [programReading_listTokens hn] at hr
  exact ⟨hn, List.map_eq_nil_iff.mp hr⟩

/-- Tokens that parse without an error are derived, up to the end of the text, by a tree that the
parsed statements are read off. The statements nest no deeper than the limit, and no scope in them
declares a name twice. -/
theorem parse_derives (ts : List Token) (h : (parse ts).diagnostics = []) :
    ∃ ds : List StmtTree, StmtTree.listTokens ds = ts.takeWhile (·.kind ≠ .eof) ∧
      StmtTree.listStmts ds = (parse ts).statements ∧
      Stmt.listNesting (parse ts).statements ≤ maxNesting ∧
      ((parse ts).statements.filterMap Stmt.declares).Nodup ∧
      Stmt.ListDistinctNames (parse ts).statements := by
  have hr : (programReading (ts.takeWhile (·.kind ≠ .eof))).reports = [] :=
    List.map_eq_nil_iff.mp h
  obtain ⟨ds, ht, hs, hn⟩ := exists_derivation hr
  obtain ⟨hdistinct, hnested⟩ := distinctNames_parse h
  exact ⟨ds, ht, hs, hn, hdistinct, hnested⟩

theorem parse_derives_block :
    let ts := (scan "var a; { var a = !b == (a = nil); print -a; }").tokens
    (parse ts).diagnostics = [] ∧
      ∃ ds : List StmtTree, StmtTree.listTokens ds = ts.takeWhile (·.kind ≠ .eof) ∧
        StmtTree.listStmts ds = (parse ts).statements ∧
        Stmt.listNesting (parse ts).statements ≤ maxNesting ∧
        ((parse ts).statements.filterMap Stmt.declares).Nodup ∧
        Stmt.ListDistinctNames (parse ts).statements := by
  intro ts
  have h : (parse ts).diagnostics = [] := by decide +kernel
  exact ⟨h, parse_derives ts h⟩

/-- The diagnostic on a name that its scope has declared before. -/
def redeclaredDiagnostic (name : Token) : Diagnostic where
  phase := .syntactic
  span := name.span
  line := name.line
  location := .at name.lexeme
  message := "Already a variable named '" ++ name.lexeme ++ "' in this scope."
  help := some "Assign to the existing variable, or declare it in a nested block."

/-- What is derived within the nesting limit parses as it is derived, whether or not a token for
the end of the text follows. The only errors are on names that are declared again, in the order in
which they stand, and there is no other derivation of the same tokens. -/
theorem parse_listTokens (ds : List StmtTree) (suffix : List Token)
    (hn : Stmt.listNesting (StmtTree.listStmts ds) ≤ maxNesting)
    (hs : ∀ t ∈ suffix.head?, t.kind = .eof) :
    (parse (StmtTree.listTokens ds ++ suffix)).statements = StmtTree.listStmts ds ∧
      (parse (StmtTree.listTokens ds ++ suffix)).diagnostics =
        (Stmt.listRedeclared [] (StmtTree.listStmts ds)).map redeclaredDiagnostic ∧
      (((StmtTree.listStmts ds).filterMap Stmt.declares).Nodup →
        Stmt.ListDistinctNames (StmtTree.listStmts ds) →
          (parse (StmtTree.listTokens ds ++ suffix)).diagnostics = []) ∧
      ∀ ds' : List StmtTree, StmtTree.listTokens ds' = StmtTree.listTokens ds → ds' = ds := by
  have hp := programReading_listTokens hn
  have hd : (parse (StmtTree.listTokens ds ++ suffix)).diagnostics =
      (Stmt.listRedeclared [] (StmtTree.listStmts ds)).map redeclaredDiagnostic := by
    simp only [Parse.diagnostics, parse, takeWhile_listTokens ds hs, hp, List.map_map]
    rfl
  refine ⟨by simp only [parse, takeWhile_listTokens ds hs, hp], hd, ?_, ?_⟩
  · intro hnodup hnested
    rw [hd, (Stmt.listRedeclared_eq_nil_iff _ _).mpr ⟨hnodup, by simp, hnested⟩]
    rfl
  · intro ds' ht
    have he := StmtTree.list_eq_of_tokens ds' ds (by simp) (by simp) (congrArg (· ++ []) ht)
    exact he.1

theorem parse_listTokens_redeclared :
    let terminal (kind : TokenKind) (lexeme : String) (start : Nat) : Terminal kind :=
      ⟨⟨kind, lexeme, none, 1, ⟨start, start + lexeme.length⟩⟩, rfl⟩
    let name := terminal .identifier "a" 11
    let ds : List StmtTree :=
      [.block (terminal .leftBrace "\x7b" 0)
        [.var (terminal .var "var" 1) (terminal .identifier "a" 5) none (terminal .semicolon ";" 6),
          .var (terminal .var "var" 7) name none (terminal .semicolon ";" 12)]
        (terminal .rightBrace "\x7d" 13)]
    let suffix := [eofToken ⟨14, 1⟩]
    Stmt.listNesting (StmtTree.listStmts ds) ≤ maxNesting ∧
      (∀ t ∈ suffix.head?, t.kind = .eof) ∧
      (parse (StmtTree.listTokens ds ++ suffix)).statements = StmtTree.listStmts ds ∧
      (parse (StmtTree.listTokens ds ++ suffix)).diagnostics = [redeclaredDiagnostic name.val] ∧
      ∀ ds' : List StmtTree, StmtTree.listTokens ds' = StmtTree.listTokens ds → ds' = ds := by
  intro terminal name ds suffix
  have hn : Stmt.listNesting (StmtTree.listStmts ds) ≤ maxNesting := by decide
  have hs : ∀ t ∈ suffix.head?, t.kind = .eof := by simp [suffix, eofToken]
  have h := parse_listTokens ds suffix hn hs
  exact ⟨hn, hs, h.1, h.2.1, h.2.2.2⟩

end Treewalk
