import Treewalk.Proofs.Lexing.Layout
import Treewalk.Proofs.Run.Joining

/-! The layout of a program does not matter. Nothing that parsing or execution decides, and nothing
that a listing shows, depends on a place; so texts whose tokens are the same but for their places run
in the same way. -/

namespace Treewalk

section Texts

variable (f : Move)

@[simp]
theorem Token.text_move (t : Token) : (t.move f).text = t.text := rfl

@[simp]
theorem Expr.text_move (expr : Expr) : (expr.move f).text = expr.text := by
  induction expr with
  | literal _ => rfl
  | grouping _ ih => rw [Expr.move, Expr.text, ih, Expr.text]
  | unary _ _ _ ih => rw [Expr.move, Expr.text, ih, Expr.text]
  | binary _ _ _ _ ihl ihr => rw [Expr.move, Expr.text, ihl, ihr, Expr.text]
  | «variable» _ => rfl
  | assign _ _ ih => rw [Expr.move, Expr.text, ih, Token.lexeme_move, Expr.text]

mutual

theorem Stmt.text_move : ∀ stmt : Stmt, (stmt.move f).text = stmt.text
  | .expression expr => by simp [Stmt.move, Stmt.text]
  | .print _ expr => by simp [Stmt.move, Stmt.text]
  | .var _ none => by simp [Stmt.move, Stmt.text]
  | .var _ (some initializer) => by simp [Stmt.move, Stmt.text]
  | .block body => by rw [Stmt.move, Stmt.text, Stmt.listText_move body, Stmt.text]

theorem Stmt.listText_move : ∀ body : List Stmt,
    Stmt.listText (Stmt.listMove f body) = Stmt.listText body
  | [] => rfl
  | stmt :: rest => by
    rw [Stmt.listMove, Stmt.listText, stmt.text_move, Stmt.listText_move rest, Stmt.listText]

end

end Texts

section Parsing

/-- Tokens that differ at most in their places. -/
def SameTokens (ts us : List Token) : Prop :=
  ts.map (Token.move .forget) = us.map (Token.move .forget)

/-- Parses that differ at most in places. -/
structure SameParse (p q : Parse) : Prop where
  statements : Stmt.listMove .forget p.statements = Stmt.listMove .forget q.statements
  diagnostics : p.diagnostics.map (Diagnostic.move .forget) =
    q.diagnostics.map (Diagnostic.move .forget)

theorem SyntaxError.diagnostic_move (f : Move) (e : SyntaxError) (eof : Token) :
    (e.diagnostic eof).move f = (e.move f).diagnostic (eof.move f) := by
  obtain ⟨fault, place⟩ := e
  cases place <;> rfl

theorem takeWhile_move (f : Move) (ts : List Token) :
    (ts.map (Token.move f)).takeWhile (·.kind ≠ .eof) =
      (ts.takeWhile (·.kind ≠ .eof)).map (Token.move f) := by
  rw [List.takeWhile_map]
  rfl

theorem endToken_forget (ts : List Token) :
    (endToken ts).move .forget =
      ((ts.map (Token.move .forget)).find? (·.kind = .eof)).getD
        ((eofToken .start).move .forget) := by
  have hfind : (ts.map (Token.move .forget)).find? (·.kind = .eof) =
      (ts.find? (·.kind = .eof)).map (Token.move .forget) := List.find?_map
  rw [endToken, hfind]
  cases ts.find? (·.kind = .eof) <;> rfl

theorem SameTokens.parse {ts us : List Token} (h : SameTokens ts us) :
    SameParse (parse ts) (parse us) := by
  have hreading : (programReading (ts.takeWhile (·.kind ≠ .eof))).move .forget
        (Stmt.listMove .forget) =
      (programReading (us.takeWhile (·.kind ≠ .eof))).move .forget (Stmt.listMove .forget) := by
    rw [← programReading_move, ← programReading_move, ← takeWhile_move, ← takeWhile_move, h]
  have hreports : (Treewalk.parse ts).reports.map (SyntaxReport.move .forget) =
      (Treewalk.parse us).reports.map (SyntaxReport.move .forget) :=
    congrArg Reading.reports hreading
  have hend : (Treewalk.parse ts).eof.move .forget = (Treewalk.parse us).eof.move .forget := by
    exact (endToken_forget ts).trans (h ▸ (endToken_forget us).symm)
  have hdiagnostics : ∀ p : Parse, p.diagnostics.map (Diagnostic.move .forget) =
      (p.reports.map (SyntaxReport.move .forget)).map
        fun r => r.error.diagnostic (p.eof.move .forget) := by
    intro p
    rw [Parse.diagnostics, List.map_map, List.map_map]
    congr 1
    funext r
    exact r.error.diagnostic_move .forget p.eof
  exact ⟨congrArg Reading.value hreading,
    by rw [hdiagnostics, hdiagnostics, hreports, hend]⟩

end Parsing

section Runs

variable {stmts others : List Stmt}

theorem statusOf_of_mapError {f : Move} {x y : Except RuntimeError Unit}
    (h : x.mapError (RuntimeError.move f) = y.mapError (RuntimeError.move f)) :
    statusOf x = statusOf y := by
  rw [← statusOf_mapError f x, h, statusOf_mapError]

theorem diagnosticsOf_of_mapError {f : Move} {x y : Except RuntimeError Unit}
    (h : x.mapError (RuntimeError.move f) = y.mapError (RuntimeError.move f)) :
    (diagnosticsOf x).map (Diagnostic.move f) = (diagnosticsOf y).map (Diagnostic.move f) := by
  rw [← diagnosticsOf_mapError, h, diagnosticsOf_mapError]

/-- Statements that are the same once moved do the same. -/
theorem Stmt.execAll_of_listMove {f : Move} (h : Stmt.listMove f stmts = Stmt.listMove f others)
    (m : Machine) :
    (Stmt.execAll stmts m).1.mapError (RuntimeError.move f) =
        (Stmt.execAll others m).1.mapError (RuntimeError.move f) ∧
      (Stmt.execAll stmts m).2.Alike (Stmt.execAll others m).2 := by
  have hfirst := Stmt.endsMoved_execAll f stmts (m := m) ⟨rfl, rfl⟩
  have hsecond := Stmt.endsMoved_execAll f others (m := m) ⟨rfl, rfl⟩
  rw [h] at hfirst
  exact ⟨hfirst.result.symm.trans hsecond.result,
    ⟨hsecond.alike.env.symm.trans hfirst.alike.env,
      hsecond.alike.sink.symm.trans hfirst.alike.sink⟩⟩

theorem Stmt.map_text_of_listMove {f : Move}
    (h : Stmt.listMove f stmts = Stmt.listMove f others) :
    stmts.map Stmt.text = others.map Stmt.text := by
  have htext : ∀ body : List Stmt, (Stmt.listMove f body).map Stmt.text = body.map Stmt.text := by
    intro body
    simp [Stmt.listMove_eq_map, Function.comp_def, Stmt.text_move]
  rw [← htext, h, htext]

theorem SameTokens.map_text {ts us : List Token} (h : SameTokens ts us) :
    ts.map Token.text = us.map Token.text := by
  have htext : ∀ ts : List Token, (ts.map (Token.move .forget)).map Token.text =
      ts.map Token.text := by simp [Function.comp_def]
  rw [← htext, h, htext]

/-- Outcomes that differ at most in places. -/
structure SameOutcome (o o' : Outcome) : Prop where
  status : o.status = o'.status
  env : o.env = o'.env
  sink : o.sink = o'.sink
  diagnostics : o.diagnostics.map (Diagnostic.move .forget) =
    o'.diagnostics.map (Diagnostic.move .forget)

theorem Program.sameOutcome {p q : Program} (htokens : SameTokens p.scanned.tokens q.scanned.tokens)
    (hparsed : SameParse p.parsed q.parsed)
    (hdiagnostics : p.diagnostics.map (Diagnostic.move .forget) =
      q.diagnostics.map (Diagnostic.move .forget))
    (options : RunOptions) (env : Environment) (sink : Sink) :
    SameOutcome (p.runIn options env sink) (q.runIn options env sink) := by
  have hlisted : p.writeTokens options sink = q.writeTokens options sink := by
    rw [Program.writeTokens, Program.writeTokens, htokens.map_text]
  by_cases hp : p.diagnostics = []
  · have hq : q.diagnostics = [] := by
      rw [hp] at hdiagnostics
      exact List.map_eq_nil_iff.mp hdiagnostics.symm
    have hstart : p.start options env sink = q.start options env sink := by
      rw [Program.start, Program.start, Program.writeTree, Program.writeTree, hlisted,
        Stmt.map_text_of_listMove hparsed.statements]
    obtain ⟨hstatus, henv, hsink, ha⟩ := Program.runIn_executed hp options env sink
    obtain ⟨hstatus', henv', hsink', ha'⟩ := Program.runIn_executed hq options env sink
    rw [hstart] at hstatus henv hsink ha
    obtain ⟨hresult, halike⟩ :=
      Stmt.execAll_of_listMove hparsed.statements (q.start options env sink)
    refine ⟨?_, ?_, ?_, ?_⟩
    · rw [hstatus, hstatus', statusOf_of_mapError hresult]
    · rw [henv, henv', halike.env]
    · rw [hsink, hsink', halike.sink]
    · rw [ha.diagnostics_eq, ha'.diagnostics_eq, diagnosticsOf_of_mapError hresult]
  · have hq : q.diagnostics ≠ [] := by
      intro hq
      rw [hq] at hdiagnostics
      exact hp (List.map_eq_nil_iff.mp hdiagnostics)
    obtain ⟨hstatus, henv, hsink, ha⟩ := Program.runIn_static hp options env sink
    obtain ⟨hstatus', henv', hsink', ha'⟩ := Program.runIn_static hq options env sink
    refine ⟨?_, ?_, ?_, ?_⟩
    · rw [hstatus, hstatus']
    · rw [henv, henv']
    · rw [hsink, hsink', hlisted]
    · rw [ha.diagnostics_eq, ha'.diagnostics_eq, hdiagnostics]

end Runs

/-- Let a text have the tokens of a source without lexical errors, in any layout. Then it has no
lexical errors, its tokens have the same kinds, lexemes and values, and it runs as the source does,
but that its errors are found at other places. -/
theorem runIn_of_layout (source text : String) (hscan : (scan source).errors = [])
    (hlayout : Layout (scan source).tokens.dropLast text.toList) :
    (scan text).errors = [] ∧
    (scan text).tokens.map (fun t => (t.kind, t.lexeme, t.literal)) =
      (scan source).tokens.map (fun t => (t.kind, t.lexeme, t.literal)) ∧
    ∀ filename options env sink,
      let outcome := runIn source filename options env sink
      let outcome' := runIn text filename options env sink
      outcome'.status = outcome.status ∧ outcome'.env = outcome.env ∧
        outcome'.sink = outcome.sink ∧
        outcome'.diagnostics.map (fun d => (d.phase, d.location, d.message, d.help)) =
          outcome.diagnostics.map (fun d => (d.phase, d.location, d.message, d.help)) := by
  have herrors : (scan text).errors = [] := hlayout.errors_scan
  have htokens : SameTokens (scan text).tokens (scan source).tokens := hlayout.forget_tokens_scan
  have hparsed := htokens.parse
  refine ⟨herrors, ?_, fun filename options env sink => ?_⟩
  · have hkinds := congrArg (List.map fun t : Token => (t.kind, t.lexeme, t.literal)) htokens
    simpa [Function.comp_def, Token.move] using hkinds
  · have hdiagnostics :
        (Program.ofSource text filename).diagnostics.map (Diagnostic.move .forget) =
          (Program.ofSource source filename).diagnostics.map (Diagnostic.move .forget) := by
      simpa [Program.diagnostics, Program.ofSource, herrors, hscan] using hparsed.diagnostics
    have hsame : SameOutcome (runIn text filename options env sink)
        (runIn source filename options env sink) :=
      Program.sameOutcome htokens hparsed hdiagnostics options env sink
    refine ⟨hsame.status, hsame.env, hsame.sink, ?_⟩
    have hshown := congrArg (List.map fun d : Diagnostic => (d.phase, d.location, d.message, d.help))
      hsame.diagnostics
    simpa [Function.comp_def, Diagnostic.move] using hshown

theorem runIn_of_layout_commented :
    let source := "print-nil;"
    let text := "//\nprint\t-\r//\nnil ; //"
    let options : RunOptions := ⟨.plain, true, true⟩
    let outcome := runIn source none options .initial .unlimited
    let outcome' := runIn text none options .initial .unlimited
    (scan source).errors = [] ∧ Layout (scan source).tokens.dropLast text.toList ∧
      outcome.status = .runtimeError ∧ outcome'.status = outcome.status ∧
      outcome'.sink = outcome.sink ∧ outcome.diagnostics.map (·.line) = [1] ∧
      outcome'.diagnostics.map (·.line) = [2] := by
  intro source text options outcome outcome'
  have hscan : (scan source).errors = [] := by decide +kernel
  have htokens : (scan source).tokens.dropLast =
      [⟨.print, "print", none, 1, ⟨0, 5⟩⟩, ⟨.minus, "-", none, 1, ⟨5, 6⟩⟩,
        ⟨.nil, "nil", none, 1, ⟨6, 9⟩⟩, ⟨.semicolon, ";", none, 1, ⟨9, 10⟩⟩] := by decide +kernel
  have htext : text.toList = ['/', '/'] ++ ['\n'] ++ ("print".toList ++ (['\t'] ++ ("-".toList ++
      (['\r', '/', '/', '\n'] ++ ("nil".toList ++ ([' '] ++ (";".toList ++
        ([' '] ++ ['/', '/'])))))))) := by decide
  have hcomment : IsComment ['/', '/'] := ⟨[], rfl, by simp⟩
  have hapart : ∀ {c : Char} {gap : List Char}, IsSeparator c → IsSetApart (c :: gap) := by
    rintro c gap hc _ ⟨⟩
    exact hc
  have hlayout : Layout (scan source).tokens.dropLast text.toList := by
    rw [htokens, htext]
    refine .tokens (.comment hcomment .nil) (.cons (by simp) (.separator ?_ .nil) (hapart ?_)
      (.cons (by simp) (.separator ?_ (.comment hcomment .nil)) (hapart ?_)
        (.cons (by simp) (.separator ?_ .nil) (hapart ?_)
          (.last (.comment (.separator ?_ .nil) hcomment) (hapart ?_)))))
    all_goals simp [IsSeparator]
  obtain ⟨-, -, hruns⟩ := runIn_of_layout source text hscan hlayout
  obtain ⟨hstatus, -, hsink, -⟩ := hruns none options .initial .unlimited
  refine ⟨hscan, hlayout, ?_, hstatus, hsink, ?_, ?_⟩
  · decide +kernel
  · decide +kernel
  · decide +kernel

end Treewalk
