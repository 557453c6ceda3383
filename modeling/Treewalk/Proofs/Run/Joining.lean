import Treewalk.Proofs.Execution.Relocation
import Treewalk.Proofs.Run.Outcome

/-! Running in pieces. Two texts joined at a line end are read and run as one after the other: nothing
is carried over the line end but the names that the first one declares, and what stands behind it is
only found further down. -/

namespace Treewalk

section Redeclarations

/-- The name that a statement declares in the scope it stands in, where it stands. -/
def Stmt.declaredName? : Stmt → Option Token
  | .var name _ => some name
  | _ => none

/-- The names among `declared` that the statements declare in their own scope. -/
def Stmt.declaredAgain (declared : List String) (stmts : List Stmt) : List Token :=
  (stmts.filterMap Stmt.declaredName?).filter (·.lexeme ∈ declared)

theorem Stmt.listRedeclared_of_distinct {own : List String} {stmts : List Stmt}
    (h : Stmt.listRedeclared own stmts = []) (declared : List String) :
    Stmt.listRedeclared (own ++ declared) stmts = Stmt.declaredAgain declared stmts := by
  induction stmts generalizing own with
  | nil => rfl
  | cons stmt rest ih =>
    rw [Stmt.listRedeclared, List.append_eq_nil_iff] at h
    have hrest := ih h.2
    rw [List.append_assoc] at hrest
    rw [Stmt.listRedeclared, hrest]
    cases stmt with
    | var name initializer =>
      have hown : name.lexeme ∉ own := by simpa [Stmt.redeclared] using h.1
      by_cases hd : name.lexeme ∈ declared <;>
        simp [Stmt.redeclared, Stmt.declaredAgain, Stmt.declaredName?, hown, hd]
    | block body =>
      have hbody : Stmt.listRedeclared [] body = [] := h.1
      simp [Stmt.redeclared, Stmt.declaredAgain, Stmt.declaredName?, List.filterMap_cons, hbody]
    | expression _ | print _ _ =>
      simp [Stmt.redeclared, Stmt.declaredAgain, Stmt.declaredName?, List.filterMap_cons]

theorem Stmt.declaredAgain_listMove (f : Move) (declared : List String) (stmts : List Stmt) :
    Stmt.declaredAgain declared (Stmt.listMove f stmts) =
      (Stmt.declaredAgain declared stmts).map (Token.move f) := by
  have hnames : (Stmt.listMove f stmts).filterMap Stmt.declaredName? =
      (stmts.filterMap Stmt.declaredName?).map (Token.move f) := by
    rw [Stmt.listMove_eq_map, List.filterMap_map, List.map_filterMap]
    congr 1
    funext stmt
    cases stmt <;> simp [Stmt.move, Stmt.declaredName?]
  rw [Stmt.declaredAgain, hnames, List.filter_map]
  rfl

end Redeclarations

section Parsing

variable {a b : String}

theorem takeWhile_scan (source : String) :
    (scan source).tokens.takeWhile (·.kind ≠ .eof) = (scan source).tokens.dropLast := by
  rw [tokens_scan_eq, List.dropLast_concat]
  exact takeWhile_append_eof (fun _ => kind_ne_eof_of_mem_dropLast) (by simp [eofToken])

theorem takeWhile_scan_line (h : (scan a).errors = []) (b : String) :
    (scan (a ++ "\n" ++ b)).tokens.takeWhile (·.kind ≠ .eof) =
      (scan a).tokens.dropLast ++ (scan b).tokens.dropLast.map (Token.move (.pastLine a)) := by
  have hopen : ∀ text, .openString text ∉ pieces a.toList :=
    openString_not_mem_pieces (by simp [h])
  rw [takeWhile_scan, tokens_scan_line hopen, List.dropLast_append_of_ne_nil, List.map_dropLast]
  simp [scan]

theorem listRedeclared_programReading {ts : List Token} (h : (programReading ts).reports = []) :
    Stmt.listRedeclared [] (programReading ts).value = [] := by
  obtain ⟨ds, rfl, hstmts, hnesting⟩ := exists_derivation h
  rw [← hstmts] at hnesting ⊢
  rw [programReading_listTokens hnesting] at h
  exact List.map_eq_nil_iff.mp h

/-- Tokens that are read without a report are read in the same way behind others that are; the only
reports then are on the names that both declare. -/
theorem programReading_append {ts us : List Token} (ht : (programReading ts).reports = [])
    (hu : (programReading us).reports = []) :
    (programReading (ts ++ us)).value = (programReading ts).value ++ (programReading us).value ∧
      (programReading (ts ++ us)).reports =
        (Stmt.declaredAgain ((programReading ts).value.filterMap Stmt.declares)
          (programReading us).value).map redeclaredReport := by
  obtain ⟨ds, hds, hstmts, hnesting⟩ := exists_derivation ht
  obtain ⟨es, hes, hstmts', hnesting'⟩ := exists_derivation hu
  have hjoined : StmtTree.listStmts (ds ++ es) =
      (programReading ts).value ++ (programReading us).value := by
    rw [StmtTree.listStmts_append, hstmts, hstmts']
  have hbound : Stmt.listNesting (StmtTree.listStmts (ds ++ es)) ≤ maxNesting := by
    rw [hjoined, listNesting_append]
    exact Nat.max_le.mpr ⟨hnesting, hnesting'⟩
  have hnames : Stmt.listRedeclared [] ((programReading ts).value ++ (programReading us).value) =
      Stmt.declaredAgain ((programReading ts).value.filterMap Stmt.declares)
        (programReading us).value := by
    have hagain := Stmt.listRedeclared_of_distinct (listRedeclared_programReading hu)
      ((programReading ts).value.filterMap Stmt.declares).reverse
    rw [Stmt.listRedeclared_append, listRedeclared_programReading ht, List.nil_append,
      List.append_nil]
    simpa [Stmt.declaredAgain] using hagain
  have hwhole := programReading_listTokens hbound
  rw [StmtTree.listTokens_append, hds, hes, hjoined, hnames] at hwhole
  rw [hwhole]
  exact ⟨rfl, rfl⟩

theorem parse_reading (ts : List Token) :
    (parse ts).statements = (programReading (ts.takeWhile (·.kind ≠ .eof))).value ∧
      (parse ts).reports = (programReading (ts.takeWhile (·.kind ≠ .eof))).reports :=
  ⟨rfl, rfl⟩

theorem Parse.reports_eq_nil {p : Parse} (h : p.diagnostics = []) : p.reports = [] :=
  List.map_eq_nil_iff.mp h

theorem Parse.diagnostics_of_redeclared {p : Parse} {names : List Token}
    (h : p.reports = names.map redeclaredReport) :
    p.diagnostics = names.map redeclaredDiagnostic := by
  rw [Parse.diagnostics, h, List.map_map]
  rfl

/-- Two texts without errors, joined at a line end, are parsed as they are apart; the only errors are
on the names that both declare. -/
theorem parse_scan_line (hscan : (scan a).errors = [])
    (ha : (parse (scan a).tokens).diagnostics = []) (hb : (parse (scan b).tokens).diagnostics = []) :
    let first := (parse (scan a).tokens).statements
    let second := (parse (scan b).tokens).statements
    let whole := parse (scan (a ++ "\n" ++ b)).tokens
    let again := Stmt.declaredAgain (first.filterMap Stmt.declares) second
    whole.statements = first ++ Stmt.listMove (.pastLine a) second ∧
      whole.diagnostics = (again.map (Token.move (.pastLine a))).map redeclaredDiagnostic := by
  intro first second whole again
  obtain ⟨hfirst, hra⟩ := parse_reading (scan a).tokens
  obtain ⟨hsecond, hrb⟩ := parse_reading (scan b).tokens
  obtain ⟨hstatements, hreported⟩ := parse_reading (scan (a ++ "\n" ++ b)).tokens
  rw [takeWhile_scan] at hfirst hra hsecond hrb
  rw [Parse.reports_eq_nil ha] at hra
  rw [Parse.reports_eq_nil hb] at hrb
  have hmoved := programReading_move (.pastLine a) (scan b).tokens.dropLast
  have hvalue : (programReading ((scan b).tokens.dropLast.map (Token.move (.pastLine a)))).value =
      Stmt.listMove (.pastLine a) second := by
    rw [hmoved, Reading.move, ← hsecond]
  have hreports :
      (programReading ((scan b).tokens.dropLast.map (Token.move (.pastLine a)))).reports = [] := by
    rw [hmoved, Reading.move, ← hrb, List.map_nil]
  have hwhole := programReading_append hra.symm hreports
  rw [hvalue, ← hfirst, Stmt.declaredAgain_listMove, ← takeWhile_scan_line hscan] at hwhole
  exact ⟨hstatements.trans hwhole.1,
    Parse.diagnostics_of_redeclared (hreported.trans hwhole.2)⟩

end Parsing

section Runs

theorem statusOf_mapError (f : Move) (result : Except RuntimeError Unit) :
    statusOf (result.mapError (RuntimeError.move f)) = statusOf result := by
  cases result <;> rfl

theorem diagnosticsOf_mapError (f : Move) (result : Except RuntimeError Unit) :
    diagnosticsOf (result.mapError (RuntimeError.move f)) =
      (diagnosticsOf result).map (Diagnostic.move f) := by
  cases result <;> rfl

theorem Program.runIn_unlisted {p : Program} (h : p.diagnostics = []) {options : RunOptions}
    (htokens : options.dumpTokens = false) (htree : options.dumpTree = false) (env : Environment)
    (sink : Sink) :
    let executed := Stmt.execAll p.parsed.statements (.start env sink)
    let outcome := p.runIn options env sink
    outcome.status = statusOf executed.1 ∧ outcome.env = executed.2.env ∧
      outcome.sink = executed.2.sink ∧ outcome.diagnostics = diagnosticsOf executed.1 := by
  have hstart : p.start options env sink = .start env sink := by
    simp [Program.start, Program.writeTree, Program.writeTokens, writeListing, htokens, htree]
  obtain ⟨hstatus, henv, hsink, ha⟩ := Program.runIn_executed h options env sink
  rw [hstart] at hstatus henv hsink ha
  exact ⟨hstatus, henv, hsink, ha.diagnostics_eq⟩

/-- A run of the statements of one program and then, moved, of another. -/
theorem Program.runIn_append {p q r : Program} {f : Move} (hp : p.diagnostics = [])
    (hq : q.diagnostics = []) (hr : r.diagnostics = [])
    (hstmts : r.parsed.statements = p.parsed.statements ++ Stmt.listMove f q.parsed.statements)
    {options : RunOptions} (htokens : options.dumpTokens = false)
    (htree : options.dumpTree = false) (env : Environment) (sink : Sink) :
    let first := p.runIn options env sink
    let second := q.runIn options first.env first.sink
    let whole := r.runIn options env sink
    (first.status = .success →
      whole.status = second.status ∧ whole.env = second.env ∧ whole.sink = second.sink ∧
        whole.diagnostics = second.diagnostics.map (Diagnostic.move f)) ∧
    (first.status ≠ .success →
      whole.status = first.status ∧ whole.env = first.env ∧ whole.sink = first.sink ∧
        whole.diagnostics = first.diagnostics) := by
  intro first second whole
  have hfirst := Program.runIn_unlisted hp htokens htree env sink
  have hwhole := Program.runIn_unlisted hr htokens htree env sink
  dsimp only at hfirst hwhole
  rw [hstmts, Stmt.execAll_append] at hwhole
  rcases hx : Stmt.execAll p.parsed.statements (.start env sink) with ⟨result, m⟩
  rw [hx] at hfirst hwhole
  obtain ⟨hstatus, henv, hsink, hds⟩ := hfirst
  obtain ⟨hstatus', henv', hsink', hds'⟩ := hwhole
  cases result with
  | ok _ =>
    -- By itself the second program starts without a record of scopes.
    have halike : (Machine.start first.env first.sink).Alike m := ⟨henv.symm, hsink.symm⟩
    have hmoved := Stmt.endsMoved_execAll f q.parsed.statements halike
    obtain ⟨hstatus₂, henv₂, hsink₂, hds₂⟩ :=
      Program.runIn_unlisted hq htokens htree first.env first.sink
    refine ⟨fun _ => ⟨?_, henv'.trans (hmoved.alike.env.trans henv₂.symm),
      hsink'.trans (hmoved.alike.sink.trans hsink₂.symm), ?_⟩, fun hne => absurd hstatus hne⟩
    · have hsame : whole.status = statusOf (Except.mapError _ _) := hmoved.result ▸ hstatus'
      exact hsame.trans ((statusOf_mapError f _).trans hstatus₂.symm)
    · have hsame : whole.diagnostics = diagnosticsOf (Except.mapError _ _) := hmoved.result ▸ hds'
      rw [hsame, diagnosticsOf_mapError, hds₂]
  | error e =>
    have hfailed : first.status = .runtimeError := hstatus
    refine ⟨fun hsuccess => absurd (hfailed.symm.trans hsuccess) (by decide), fun _ => ?_⟩
    exact ⟨hstatus'.trans hstatus.symm, henv'.trans henv.symm, hsink'.trans hsink.symm,
      hds'.trans hds.symm⟩

end Runs

/-- Two texts without errors, joined at a line end: the only static errors are on the names that both
declare, and without such a name running the whole is running one after the other, but that the
errors of the second text are found further down. -/
theorem runIn_joined (a b : String) (hscan : (scan a).errors = [] ∧ (scan b).errors = [])
    (hparse : (parse (scan a).tokens).diagnostics = [] ∧
      (parse (scan b).tokens).diagnostics = []) :
    let c := a ++ "\n" ++ b
    let declared := (parse (scan a).tokens).statements.filterMap Stmt.declares
    let again := Stmt.declaredAgain declared (parse (scan b).tokens).statements
    (scan c).errors = [] ∧
    (parse (scan c).tokens).diagnostics =
      (again.map (Token.move (.pastLine a))).map redeclaredDiagnostic ∧
    (again = [] → ∀ filename options env sink,
      options.dumpTokens = false → options.dumpTree = false →
      let first := runIn a filename options env sink
      let second := runIn b filename options first.env first.sink
      let whole := runIn c filename options env sink
      (first.status = .success →
        whole.status = second.status ∧ whole.env = second.env ∧ whole.sink = second.sink ∧
          whole.diagnostics = second.diagnostics.map (Diagnostic.move (.pastLine a))) ∧
      (first.status ≠ .success →
        whole.status = first.status ∧ whole.env = first.env ∧ whole.sink = first.sink ∧
          whole.diagnostics = first.diagnostics)) := by
  intro c declared again
  have hopen : ∀ text, .openString text ∉ pieces a.toList :=
    openString_not_mem_pieces (by simp [hscan.1])
  have herrors : (scan c).errors = [] := by
    rw [errors_scan_line hopen, hscan.1, hscan.2]
    rfl
  obtain ⟨hstmts, hdiagnostics⟩ := parse_scan_line hscan.1 hparse.1 hparse.2
  have hstatic : ∀ source filename, (scan source).errors = [] →
      (parse (scan source).tokens).diagnostics = [] →
        (Program.ofSource source filename).diagnostics = [] := by
    intro source filename hs hp
    simp [Program.ofSource, Program.diagnostics, hs, hp]
  refine ⟨herrors, hdiagnostics, fun hagain filename options env sink htokens htree => ?_⟩
  have hnone : (parse (scan c).tokens).diagnostics = [] := by
    have hmap : (again.map (Token.move (.pastLine a))).map redeclaredDiagnostic = [] := by
      rw [hagain, List.map_nil, List.map_nil]
    exact hdiagnostics.trans hmap
  exact Program.runIn_append (hstatic a filename hscan.1 hparse.1)
    (hstatic b filename hscan.2 hparse.2) (hstatic c filename herrors hnone) hstmts htokens htree
    env sink

theorem runIn_joined_negated :
    let a := "var x; // none"
    let b := "{ var x; }\nprint -x;"
    let options : RunOptions := ⟨.plain, false, false⟩
    let first := runIn a none options .initial .unlimited
    let second := runIn b none options first.env first.sink
    let whole := runIn (a ++ "\n" ++ b) none options .initial .unlimited
    ((scan a).errors = [] ∧ (scan b).errors = []) ∧
      ((parse (scan a).tokens).diagnostics = [] ∧ (parse (scan b).tokens).diagnostics = []) ∧
      first.status = .success ∧ second.status = .runtimeError ∧
      whole.status = second.status ∧ whole.env = second.env ∧ whole.sink = second.sink ∧
      whole.diagnostics = second.diagnostics.map (Diagnostic.move (.pastLine a)) := by
  intro a b options first second whole
  have hscan : (scan a).errors = [] ∧ (scan b).errors = [] := by decide +kernel
  have hparse : (parse (scan a).tokens).diagnostics = [] ∧
      (parse (scan b).tokens).diagnostics = [] := by decide +kernel
  obtain ⟨-, -, hruns⟩ := runIn_joined a b hscan hparse
  have hsuccess : first.status = .success := by decide +kernel
  have hfailed : second.status = .runtimeError := by decide +kernel
  exact ⟨hscan, hparse, hsuccess, hfailed,
    (hruns (by decide +kernel) none options .initial .unlimited rfl rfl).1 hsuccess⟩

end Treewalk
