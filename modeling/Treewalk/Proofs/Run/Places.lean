import Treewalk.Proofs.Grammar.Order
import Treewalk.Proofs.Lexing.Places
import Treewalk.Proofs.Run.Outcome

/-! Where diagnostics point. An error found by parsing stands at a token or at the end of the text,
and one of a running program stands at a token that its statements keep; the tokens are those of the
scan, so that every diagnostic of a run lies in the source it is about. -/

namespace Treewalk

section RuntimeErrors

theorem faultAt_token {α : Type} {token : Token} {result : Except RuntimeFault α}
    {e : RuntimeError} (h : faultAt token result = .error e) : e.token = token := by
  cases result with
  | ok a => cases h
  | error fault =>
    cases h
    rfl

theorem environmentFaultAt_token {α : Type} {name : Token} {result : Except EnvironmentError α}
    {e : RuntimeError} (h : environmentFaultAt name result = .error e) : e.token = name := by
  obtain ⟨error, -, rfl⟩ := environmentFaultAt_eq_error h
  rfl

theorem Expr.token_mem_of_eval (expr : Expr) {env : Environment} {e : RuntimeError}
    (h : (expr.eval env).1 = .error e) : e.token ∈ expr.tokens := by
  induction expr generalizing env with
  | literal value => cases h
  | grouping inner ih => exact ih h
  | unary op token operand ih =>
    rw [Expr.eval] at h
    split at h
    · rw [faultAt_token h]
      exact List.mem_cons_self
    · rename_i heq
      exact List.mem_cons_of_mem _ (ih (by rw [heq]; exact h))
  | binary op token left right ihl ihr =>
    rw [Expr.eval] at h
    split at h
    · split at h
      · rw [faultAt_token h]
        exact List.mem_append_right _ List.mem_cons_self
      · rename_i heq
        exact List.mem_append_right _ (List.mem_cons_of_mem _ (ihr (by rw [heq]; exact h)))
    · rename_i heq
      exact List.mem_append_left _ (ihl (by rw [heq]; exact h))
  | «variable» name =>
    rw [environmentFaultAt_token h]
    exact List.mem_singleton_self name
  | assign name value ih =>
    rw [Expr.eval] at h
    split at h
    · split at h
      · cases h
      · rename_i hfailed
        cases h
        rw [environmentFaultAt_token hfailed]
        exact List.mem_cons_self
    · rename_i heq
      exact List.mem_cons_of_mem _ (ih (by rw [heq]; exact h))

theorem Machine.token_of_declare {m : Machine} {name : Token} {value : Value} {e : RuntimeError}
    (h : (m.declare name value).1 = .error e) : e.token = name := by
  unfold Machine.declare at h
  split at h
  · cases h
  · rename_i hfailed
    cases h
    exact environmentFaultAt_token hfailed

theorem Stmt.token_mem_of_exec {stmt : Stmt} (hsimple : ∀ body, stmt ≠ .block body) {m : Machine}
    {e : RuntimeError} (h : (stmt.exec m).1 = .error e) : e.token ∈ stmt.tokens := by
  have heval : ∀ {expr : Expr} {n : Machine}, m.eval expr = (.error e, n) →
      e.token ∈ expr.tokens := by
    intro expr n hn
    have hvalue : (expr.eval m.env).1 = .error e := congrArg Prod.fst hn
    exact expr.token_mem_of_eval hvalue
  cases stmt with
  | expression expr =>
    rw [Stmt.exec] at h
    split at h
    · cases h
    · rename_i heq
      cases h
      exact heval heq
  | print keyword expr =>
    rw [Stmt.exec] at h
    split at h
    · unfold Machine.print at h
      split at h <;> cases h
      exact List.mem_cons_self
    · rename_i heq
      cases h
      exact List.mem_cons_of_mem _ (heval heq)
  | var name initializer =>
    cases initializer with
    | none =>
      rw [Stmt.exec] at h
      rw [Machine.token_of_declare h]
      exact List.mem_singleton_self name
    | some initializer =>
      rw [Stmt.exec] at h
      split at h
      · rw [Machine.token_of_declare h]
        exact List.mem_cons_self
      · rename_i heq
        cases h
        exact List.mem_cons_of_mem _ (heval heq)
  | block body => exact absurd rfl (hsimple body)

theorem Reaches.tokens_subset {body : List Stmt} {m n : Machine} {depth : Nat} {stmt : Stmt}
    (h : Reaches body m depth stmt n) : stmt.tokens ⊆ Stmt.listTokens body := by
  induction h with
  | here => exact List.subset_append_left _ _
  | later _ _ ih => exact List.subset_append_of_subset_right _ ih
  | inside _ ih => exact List.subset_append_of_subset_left _ ih

theorem Stmt.token_mem_of_execAll {statements : List Stmt} {m : Machine} {e : RuntimeError}
    (h : (Stmt.execAll statements m).1 = .error e) : e.token ∈ Stmt.listTokens statements := by
  obtain ⟨depth, stmt, n, hr, hsimple, hfail⟩ := Stmt.reaches_of_execAll_error statements h
  exact hr.tokens_subset (Stmt.token_mem_of_exec hsimple hfail)

end RuntimeErrors

section SyntaxErrors

/-- A token in front of the end of the text. -/
def InText (source : String) (t : Token) : Prop :=
  t ∈ (scan source).tokens ∧ t.kind ≠ .eof

theorem mem_takeWhile_scan {source : String} {t : Token}
    (h : t ∈ (scan source).tokens.takeWhile (·.kind ≠ .eof)) : InText source t :=
  ⟨(List.takeWhile_prefix _).subset h, by simpa using List.mem_takeWhile_imp h⟩

theorem InText.placedIn {source : String} {t : Token} (h : InText source t) :
    PlacedIn source.toList t.span t.line ∧ t.span.start < t.span.stop := by
  obtain ⟨hplaced, rfl | ⟨-, hlt⟩⟩ := token_of_mem_scan h.1
  · exact absurd rfl h.2
  · exact ⟨hplaced, hlt⟩

theorem endToken_scan (source : String) :
    endToken (scan source).tokens = eofToken (Position.start.after source.toList) := by
  have hlast : eofToken (Position.start.after source.toList) ∈ (scan source).tokens :=
    List.mem_append_right _ (List.mem_singleton_self _)
  rw [endToken]
  cases hf : (scan source).tokens.find? (·.kind = .eof) with
  | none =>
    exact absurd (List.find?_eq_none.mp hf _ hlast) (by simp [eofToken])
  | some t =>
    have hkind : t.kind = .eof := by simpa using List.find?_some hf
    obtain ⟨-, rfl | ⟨hne, -⟩⟩ := token_of_mem_scan (List.mem_of_find?_eq_some hf)
    · rfl
    · exact absurd hkind hne

theorem place_of_mem_reports {source : String} {r : SyntaxReport}
    (h : r ∈ (parse (scan source).tokens).reports) : ∀ t ∈ r.error.place, InText source t := by
  have hreported := (programReading_holds (textInvariant _) (List.suffix_refl _)).reported r h
  exact fun t ht => mem_takeWhile_scan (hreported t ht)

theorem diagnostic_of_mem_parse {source : String} {d : Diagnostic}
    (h : d ∈ (parse (scan source).tokens).diagnostics) :
    PlacedIn source.toList d.span d.line ∧
      (d.location = .atEnd ∧ d.span = ⟨source.length, source.length⟩ ∨
        ∃ l, d.location = .at l ∧ d.span.start < d.span.stop ∧
          l.toList = source.toList.extract d.span.start d.span.stop) := by
  obtain ⟨⟨⟨fault, place⟩, recovery⟩, hr, rfl⟩ := List.mem_map.mp h
  have hplace := place_of_mem_reports hr
  have heof : (parse (scan source).tokens).eof = eofToken (Position.start.after source.toList) :=
    endToken_scan source
  cases place with
  | none =>
    have hmem : eofToken (Position.start.after source.toList) ∈ (scan source).tokens :=
      List.mem_append_right _ (List.mem_singleton_self _)
    simp only [SyntaxError.diagnostic, heof, Option.getD_none]
    refine ⟨(token_of_mem_scan hmem).1, .inl ⟨rfl, ?_⟩⟩
    simp [eofToken, Span.empty, Position.after, Position.start, String.length_toList]
  | some t =>
    have ht := hplace t rfl
    obtain ⟨hplaced, hlt⟩ := ht.placedIn
    exact ⟨hplaced, .inr ⟨t.lexeme, rfl, hlt, extract_lexeme ht.1⟩⟩

end SyntaxErrors

/-- The part of a span that lies in a text of the given length, which is what a report shows. -/
def Span.clamp (s : Span) (length : Nat) : Span where
  start := s.startWithin length
  stop := min s.stop length

theorem PlacedIn.clamp_eq {source : List Char} {span : Span} {line : Nat}
    (h : PlacedIn source span line) : span.clamp source.length = span := by
  have hstop := Nat.min_eq_left h.stop_le_length
  have hstart : span.startWithin source.length = span.start := by
    rw [Span.startWithin, hstop]
    exact Nat.min_eq_left h.start_le_stop
  rw [Span.clamp, hstart, hstop]

section Runs

variable {source : String}

theorem result_execute (statements : List Stmt) (env : Environment) (sink : Sink) :
    (execute statements env sink).result = (Stmt.execAll statements (.start env sink)).1 := rfl

theorem token_of_execAll_parse {m : Machine} {e : RuntimeError}
    (h : (Stmt.execAll (parse (scan source).tokens).statements m).1 = .error e) :
    InText source e.token ∧
      e.token ∈ Stmt.listTokens (parse (scan source).tokens).statements := by
  have hmem := Stmt.token_mem_of_execAll h
  exact ⟨mem_takeWhile_scan ((listTokens_parse_sublist _).subset hmem), hmem⟩

theorem placedIn_of_mem_static {filename : Option String} {d : Diagnostic}
    (h : d ∈ (Program.ofSource source filename).diagnostics) :
    PlacedIn source.toList d.span d.line := by
  rcases List.mem_append.mp h with h | h
  · obtain ⟨e, he, rfl⟩ := List.mem_map.mp h
    exact (error_of_mem_scan he).1
  · exact (diagnostic_of_mem_parse h).1

theorem placedIn_of_mem_run {filename : Option String} {options : RunOptions} {env : Environment}
    {sink : Sink} {d : Diagnostic}
    (h : d ∈ (runIn source filename options env sink).diagnostics) :
    PlacedIn source.toList d.span d.line := by
  by_cases hstatic : (Program.ofSource source filename).diagnostics = []
  · obtain ⟨-, -, -, ha⟩ := Program.runIn_executed hstatic options env sink
    rw [runIn, ha.diagnostics_eq] at h
    rcases hx : Stmt.execAll (Program.ofSource source filename).parsed.statements
      ((Program.ofSource source filename).start options env sink) with ⟨result, m⟩
    rw [hx] at h
    cases result with
    | ok _ => cases h
    | error e =>
      rw [List.mem_singleton.mp h]
      exact (token_of_execAll_parse (congrArg Prod.fst hx)).1.placedIn.1
  · obtain ⟨-, -, -, ha⟩ := Program.runIn_static hstatic options env sink
    rw [runIn, ha.diagnostics_eq] at h
    exact placedIn_of_mem_static h

theorem Program.mem_notices_runIn {p : Program} {options : RunOptions} {env : Environment}
    {sink : Sink} {d : Diagnostic} {text : String} {filename : Option String}
    (h : .diagnostic d text filename ∈ (p.runIn options env sink).notices) :
    text = p.source ∧ d ∈ (p.runIn options env sink).diagnostics := by
  obtain ⟨events, hnotices⟩ := p.announces_runIn options env sink
  rw [hnotices, List.mem_append] at h
  rcases h with h | h
  · obtain ⟨event, -, he⟩ := List.mem_map.mp h
    cases he
  · obtain ⟨d', hd', he⟩ := List.mem_map.mp h
    cases he
    exact ⟨rfl, hd'⟩

end Runs

/-- Every token, every error found before a run and every error of a run has a span in the source and
the line on which that span ends. -/
theorem places_in_source (source : String) :
    let text := source.toList
    let statements := (parse (scan source).tokens).statements
    (∀ t ∈ (scan source).tokens, PlacedIn text t.span t.line) ∧
    (∀ e ∈ (scan source).errors, PlacedIn text e.diagnostic.span e.diagnostic.line ∧
      ((∃ c, e.diagnostic.message = "Unexpected character '" ++ String.singleton c ++ "'." ∧
        text[e.span.start]? = some c ∧ e.span.stop = e.span.start + 1) ∨
      (e.diagnostic.message = "Unterminated string." ∧ text[e.span.start]? = some '"' ∧
        '"' ∉ text.drop (e.span.start + 1) ∧ e.span.stop = source.length))) ∧
    (∀ d ∈ (parse (scan source).tokens).diagnostics, PlacedIn text d.span d.line ∧
      (d.location = .atEnd ∧ d.span = ⟨source.length, source.length⟩ ∨
        ∃ l, d.location = .at l ∧ d.span.start < d.span.stop ∧
          l.toList = text.extract d.span.start d.span.stop)) ∧
    (∀ env sink e, (execute statements env sink).result = .error e →
      PlacedIn text e.diagnostic.span e.diagnostic.line ∧
        e.diagnostic.span.start < e.diagnostic.span.stop ∧
        ∃ t ∈ Stmt.listTokens statements, e.diagnostic.span = t.span) ∧
    ∀ filename options env sink d about name,
      .diagnostic d about name ∈ (runIn source filename options env sink).notices →
        about = source ∧ d.span.clamp source.length = d.span := by
  intro text statements
  refine ⟨fun t ht => (token_of_mem_scan ht).1, fun e he => ?_, fun d => diagnostic_of_mem_parse,
    fun env sink e he => ?_, fun filename options env sink d about name hd => ?_⟩
  · obtain ⟨hplaced, ⟨c, hfault, hc, hstop⟩ | ⟨line, hfault, hquote, hopen, hstop⟩⟩ :=
      error_of_mem_scan he
    · exact ⟨hplaced, .inl ⟨c, by rw [LexicalError.diagnostic, hfault]; rfl, hc, hstop⟩⟩
    · exact ⟨hplaced, .inr ⟨by rw [LexicalError.diagnostic, hfault]; rfl, hquote, hopen, hstop⟩⟩
  · rw [result_execute] at he
    obtain ⟨hin, hmem⟩ := token_of_execAll_parse he
    obtain ⟨hplaced, hlt⟩ := hin.placedIn
    exact ⟨hplaced, hlt, e.token, hmem, rfl⟩
  · obtain ⟨rfl, hmem⟩ := Program.mem_notices_runIn hd
    have hclamp := (placedIn_of_mem_run hmem).clamp_eq
    rw [String.length_toList] at hclamp
    exact ⟨rfl, hclamp⟩

example :
    (run "print\n-nil;" none ⟨.plain, false, false⟩ .unlimited).diagnostics.map
      (fun d => (d.span, d.line)) = [(⟨6, 7⟩, 2)] := by
  decide +kernel

end Treewalk
