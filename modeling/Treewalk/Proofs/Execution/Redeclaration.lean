import Treewalk.Proofs.Execution.Faults
import Treewalk.Proofs.Execution.Names
import Treewalk.Proofs.Execution.Reach
import Treewalk.Proofs.Grammar.Parsing
import Treewalk.Run

/-! Declaring a name again. Statements without a static error declare no name twice in a scope, so
that a declaration fails only at the top level, and there exactly on the names that the environment
bound in its innermost frame before the run. -/

namespace Treewalk

section Message

/-! The message can be told from every other one, most often by its first letter. -/

/-- What is said when a declaration names a variable that its scope has already bound. -/
def redeclaration (x : String) : String :=
  "Variable '" ++ x ++ "' is already declared in this scope."

theorem head?_toList_append {s : String} {c : Char} (h : s.toList.head? = some c) (t : String) :
    (s ++ t).toList.head? = some c := by
  rw [String.toList_append, List.head?_append, h]
  rfl

theorem head?_redeclaration (x : String) : (redeclaration x).toList.head? = some 'V' :=
  head?_toList_append (head?_toList_append (by decide) x) _

theorem redeclaration_inj {x y : String} (h : redeclaration x = redeclaration y) : x = y := by
  simpa [redeclaration] using h

theorem LexicalFault.head?_message (fault : LexicalFault) :
    fault.message.toList.head? = some 'U' := by
  cases fault with
  | strayCharacter c => exact head?_toList_append (head?_toList_append (by decide) _) _
  | openString openedOn =>
    show "Unterminated string.".toList.head? = some 'U'
    decide

theorem SyntaxFault.head?_message_ne (fault : SyntaxFault) :
    fault.message.toList.head? ≠ some 'V' := by
  cases fault with
  | redeclared name =>
    have h : (SyntaxFault.redeclared name).message.toList.head? = some 'A' :=
      head?_toList_append (head?_toList_append (by decide) name) _
    rw [h]
    decide
  | _ => decide

theorem RuntimeFault.message_eq_redeclaration_iff {fault : RuntimeFault} {x : String} :
    fault.message = redeclaration x ↔ fault = .environment (.alreadyDeclared x) := by
  constructor
  · intro h
    have hhead : fault.message.toList.head? = some 'V' := h ▸ head?_redeclaration x
    cases fault with
    | environment error =>
      cases error with
      | undefined name =>
        have hother : (RuntimeFault.environment (.undefined name)).message.toList.head? =
            some 'U' := head?_toList_append (head?_toList_append (by decide) name) _
        rw [hother] at hhead
        exact absurd hhead (by decide)
      | alreadyDeclared name =>
        have hname : name = x := redeclaration_inj h
        rw [hname]
    | outputFailed reason =>
      have hother : (RuntimeFault.outputFailed reason).message.toList.head? = some 'F' :=
        head?_toList_append (by decide) reason
      rw [hother] at hhead
      exact absurd hhead (by decide)
    | cannotNegate _ =>
      have hother : "Operand must be a number.".toList.head? ≠ some 'V' := by decide
      exact absurd hhead hother
    | cannotAdd _ _ =>
      have hother : "Operands must be two numbers or two strings.".toList.head? ≠ some 'V' := by
        decide
      exact absurd hhead hother
    | notNumbers _ _ =>
      have hother : "Operands must be numbers.".toList.head? ≠ some 'V' := by decide
      exact absurd hhead hother
  · rintro rfl
    rfl

end Message

section Declarations

/-- The innermost frame of the environment has a value for the name. -/
def Environment.BindsInnermost (env : Environment) (name : String) : Prop :=
  ∃ frame value, env.frames.head? = some frame ∧ (name, value) ∈ frame

theorem Environment.bindsInnermost_iff {env : Environment} {ns : List String}
    {outer : List (List String)} {name : String} (h : env.names = ns :: outer) :
    env.BindsInnermost name ↔ name ∈ ns := by
  obtain ⟨frame, rest, hframes, rfl, -⟩ := List.map_eq_cons_iff.mp h
  simp [Environment.BindsInnermost, hframes]

/-- The statement fails with an error that is told in these words. -/
def Stmt.FailsWith (stmt : Stmt) (m : Machine) (message : String) : Prop :=
  ∃ e, (stmt.exec m).1 = .error e ∧ e.diagnostic.message = message

/-- The initializer of a variable has a value, if there is one. -/
def Machine.Initializes (m : Machine) (initializer : Option Expr) : Prop :=
  ∀ expr ∈ initializer, ∃ value, (m.eval expr).1 = .ok value

theorem Stmt.exec_var (name : Token) {initializer : Option Expr} {m : Machine}
    (h : m.Initializes initializer) :
    ∃ (m' : Machine) (value : Value), m'.env.names = m.env.names ∧
      (Stmt.var name initializer).exec m = m'.declare name value := by
  cases initializer with
  | none => exact ⟨m, .nil, rfl, by rw [Stmt.exec]⟩
  | some expr =>
    obtain ⟨value, hvalue⟩ := h expr rfl
    refine ⟨(m.eval expr).2, value, m.names_eval expr, ?_⟩
    rw [Stmt.exec]
    split
    · rename_i heq
      rw [heq] at hvalue ⊢
      cases hvalue
      rfl
    · rename_i heq
      rw [heq] at hvalue
      cases hvalue

theorem Stmt.initializes_of_alreadyDeclared {name : Token} {initializer : Option Expr}
    {m : Machine} {e : RuntimeError} {x : String}
    (h : ((Stmt.var name initializer).exec m).1 = .error e)
    (hfault : e.fault = .environment (.alreadyDeclared x)) : m.Initializes initializer := by
  rintro expr hexpr
  cases hexpr
  rw [Stmt.exec] at h
  split at h
  · rename_i value _ heq
    exact ⟨value, by rw [heq]⟩
  · rename_i heq
    cases h
    have hvalue : (expr.eval m.env).1 = .error e := congrArg Prod.fst heq
    exact absurd hfault (expr.eval_ne_alreadyDeclared hvalue)

theorem Stmt.failsWith_redeclaration_iff {name : Token} {initializer : Option Expr} {m : Machine}
    {ns : List String} {outer : List (List String)} {x : String}
    (hn : m.env.names = ns :: outer) :
    (Stmt.var name initializer).FailsWith m (redeclaration x) ↔
      m.Initializes initializer ∧ name.lexeme = x ∧ x ∈ ns := by
  constructor
  · rintro ⟨e, he, hmessage⟩
    have hfault := RuntimeFault.message_eq_redeclaration_iff.mp hmessage
    have hinit := Stmt.initializes_of_alreadyDeclared he hfault
    obtain ⟨m', value, hnames, hexec⟩ := Stmt.exec_var name hinit
    rw [hexec] at he
    by_cases hmem : name.lexeme ∈ ns
    · rw [Machine.declare_of_mem (hnames.trans hn) hmem] at he
      cases he
      cases hfault
      exact ⟨hinit, rfl, hmem⟩
    · obtain ⟨m'', hok, -⟩ := Machine.declare_of_not_mem (hnames.trans hn) hmem value
      rw [hok] at he
      cases he
  · rintro ⟨hinit, rfl, hmem⟩
    obtain ⟨m', value, hnames, hexec⟩ := Stmt.exec_var name hinit
    refine ⟨⟨.environment (.alreadyDeclared name.lexeme), name⟩, ?_, rfl⟩
    rw [hexec, Machine.declare_of_mem (hnames.trans hn) hmem]

theorem Stmt.FailsWith.eq_var {stmt : Stmt} {m : Machine} {x : String}
    (h : stmt.FailsWith m (redeclaration x)) (hsimple : ∀ body, stmt ≠ .block body) :
    ∃ name initializer, stmt = .var name initializer := by
  obtain ⟨e, he, hmessage⟩ := h
  have hfault := RuntimeFault.message_eq_redeclaration_iff.mp hmessage
  cases stmt with
  | expression expr =>
    rw [Stmt.exec] at he
    split at he
    · cases he
    · rename_i heq
      cases he
      exact absurd hfault (expr.eval_ne_alreadyDeclared (congrArg Prod.fst heq))
  | print keyword expr =>
    rw [Stmt.exec] at he
    split at he
    · unfold Machine.print at he
      split at he <;> cases he
      cases hfault
    · rename_i heq
      cases he
      exact absurd hfault (expr.eval_ne_alreadyDeclared (congrArg Prod.fst heq))
  | var name initializer => exact ⟨name, initializer, rfl⟩
  | block body => exact absurd rfl (hsimple body)

end Declarations

section Run

/-- Where execution comes to a declaration, the innermost frame has the declared name only if no
block has been entered and the frame had it from the start. -/
theorem Reaches.names {body : List Stmt} {m n : Machine} {depth : Nat} {stmt : Stmt} {x : String}
    {ns : List String} {outer : List (List String)} (h : Reaches body m depth stmt n)
    (hx : stmt.declares = some x)
    (hdistinct : (body.filterMap Stmt.declares).Nodup ∧ Stmt.ListDistinctNames body)
    (hn : m.env.names = ns :: outer) :
    ∃ inner outer', n.env.names = inner :: outer' ∧ (x ∈ inner ↔ depth = 0 ∧ x ∈ ns) := by
  induction h generalizing ns outer with
  | here => exact ⟨ns, outer, hn, by simp⟩
  | @later first stmt rest m m' n depth hfirst hr ih =>
    have hrest : (rest.filterMap Stmt.declares).Nodup :=
      hdistinct.1.sublist ((List.sublist_cons_self first rest).filterMap _)
    have hnames := first.names_exec hn
    rw [hfirst] at hnames
    obtain ⟨inner, outer', hinner, hiff⟩ := ih hx ⟨hrest, hdistinct.2.2⟩ hnames
    refine ⟨inner, outer', hinner, hiff.trans (and_congr_right fun hdepth => ?_)⟩
    -- At the top level the declaration stands in the same scope as the statement before it.
    subst hdepth
    have hmem : x ∈ rest.filterMap Stmt.declares := List.mem_filterMap.mpr ⟨stmt, hr.mem, hx⟩
    have hfresh : x ∉ first.declares.toList := by
      intro hd
      rw [Option.mem_toList] at hd
      have hnodup := hdistinct.1
      rw [List.filterMap_cons, hd] at hnodup
      exact (List.nodup_cons.mp hnodup).1 hmem
    simp [Stmt.bound, hfresh]
  | @inside body rest stmt m n depth hr ih =>
    have henter : m.enter.env.names = [] :: ns :: outer := congrArg ([] :: ·) hn
    obtain ⟨inner, outer', hinner, hiff⟩ := ih hx hdistinct.2.1 henter
    exact ⟨inner, outer', hinner, by simpa using hiff⟩

/-- The machine with which a program without static errors begins to run. -/
def Program.start (p : Program) (options : RunOptions) (env : Environment) (sink : Sink) :
    Machine :=
  .start env (p.writeTree options (p.writeTokens options sink).2).2

theorem Program.env_start (p : Program) (options : RunOptions) (env : Environment) (sink : Sink) :
    (p.start options env sink).env = env := rfl

/-- One of the diagnostics that come with the outcome is told in these words. -/
def Outcome.Tells (o : Outcome) (message : String) : Prop :=
  ∃ d source filename, .diagnostic d source filename ∈ o.notices ∧ d.message = message

theorem Program.tells_runIn_iff {p : Program} {options : RunOptions} {env : Environment}
    {sink : Sink} {message : String} (h : p.diagnostics = []) :
    (p.runIn options env sink).Tells message ↔
      ∃ e, (Stmt.execAll p.parsed.statements (p.start options env sink)).1 = .error e ∧
        e.diagnostic.message = message := by
  rcases hx : Stmt.execAll p.parsed.statements (p.start options env sink) with ⟨result, m⟩
  rw [Program.start] at hx
  cases result with
  | ok _ => simp [Outcome.Tells, Program.runIn, Program.runWith, h, Program.outcome, execute, hx]
  | error e =>
    simp [Outcome.Tells, Program.runIn, Program.runWith, h, Program.outcome, execute, hx,
      Program.notice]

theorem Program.tells_runIn_static {p : Program} {options : RunOptions} {env : Environment}
    {sink : Sink} {message : String} (h : p.diagnostics ≠ [])
    (ht : (p.runIn options env sink).Tells message) : ∃ d ∈ p.diagnostics, d.message = message := by
  obtain ⟨d, source, filename, hd, hmessage⟩ := ht
  refine ⟨d, ?_, hmessage⟩
  have hnotice : ∃ d' ∈ p.diagnostics, d' = d ∧ p.source = source ∧ p.filename = filename := by
    simpa [Program.runIn, Program.runWith, h, Program.staticNotices, Program.notice] using hd
  obtain ⟨d', hd', rfl, -⟩ := hnotice
  exact hd'

theorem Program.message_ne_redeclaration {p : Program} {d : Diagnostic} (h : d ∈ p.diagnostics)
    (x : String) : d.message ≠ redeclaration x := by
  intro hd
  have hhead := head?_redeclaration x
  rw [← hd] at hhead
  rcases List.mem_append.mp h with h | h
  · obtain ⟨e, -, rfl⟩ := List.mem_map.mp h
    exact absurd (e.fault.head?_message.symm.trans hhead) (by decide)
  · obtain ⟨r, -, rfl⟩ := List.mem_map.mp h
    exact r.error.fault.head?_message_ne hhead

theorem Program.parsed_ofSource (source : String) (filename : Option String) :
    (Program.ofSource source filename).parsed = parse (scan source).tokens := rfl

theorem Program.distinctNames_ofSource {source : String} {filename : Option String}
    (h : (Program.ofSource source filename).diagnostics = []) :
    ((Program.ofSource source filename).parsed.statements.filterMap Stmt.declares).Nodup ∧
      Stmt.ListDistinctNames (Program.ofSource source filename).parsed.statements := by
  rw [Program.diagnostics, List.append_eq_nil_iff, Program.parsed_ofSource] at h
  rw [Program.parsed_ofSource]
  exact distinctNames_parse h.2

theorem tells_redeclaration_iff {source : String} {filename : Option String}
    {options : RunOptions} {sink : Sink} {env : Environment} {x : String}
    (hstatic : (Program.ofSource source filename).diagnostics = []) (henv : env.frames ≠ []) :
    (runIn source filename options env sink).Tells (redeclaration x) ↔
      ∃ name initializer n,
        Reaches (Program.ofSource source filename).parsed.statements
          ((Program.ofSource source filename).start options env sink) 0 (.var name initializer) n ∧
        n.Initializes initializer ∧ name.lexeme = x ∧ env.BindsInnermost x := by
  obtain ⟨ns, outer, hn⟩ := Environment.names_eq_cons henv
  have hstart : ((Program.ofSource source filename).start options env sink).env.names =
      ns :: outer := by rwa [Program.env_start]
  have hdistinct := Program.distinctNames_ofSource hstatic
  rw [Environment.bindsInnermost_iff hn, runIn, Program.tells_runIn_iff hstatic]
  constructor
  · rintro ⟨e, he, hmessage⟩
    obtain ⟨depth, stmt, n, hr, hsimple, hfail⟩ := Stmt.reaches_of_execAll_error _ he
    have hfails : stmt.FailsWith n (redeclaration x) := ⟨e, hfail, hmessage⟩
    obtain ⟨name, initializer, rfl⟩ := hfails.eq_var hsimple
    obtain ⟨inner, outer', hinner, hiff⟩ := hr.names rfl hdistinct hstart
    obtain ⟨hinit, rfl, hmem⟩ := (Stmt.failsWith_redeclaration_iff hinner).mp hfails
    obtain ⟨rfl, hx⟩ := hiff.mp hmem
    exact ⟨name, initializer, n, hr, hinit, rfl, hx⟩
  · rintro ⟨name, initializer, n, hr, hinit, rfl, hx⟩
    obtain ⟨inner, outer', hinner, hiff⟩ := hr.names rfl hdistinct hstart
    obtain ⟨e, he, hmessage⟩ := (Stmt.failsWith_redeclaration_iff hinner).mpr
      ⟨hinit, rfl, hiff.mpr ⟨rfl, hx⟩⟩
    exact ⟨e, hr.execAll_error he, hmessage⟩

theorem not_tells_redeclaration_run (source : String) (filename : Option String)
    (options : RunOptions) (sink : Sink) (x : String) :
    ¬ (run source filename options sink).Tells (redeclaration x) := by
  intro ht
  rw [run] at ht
  by_cases hstatic : (Program.ofSource source filename).diagnostics = []
  · obtain ⟨name, initializer, n, -, -, -, frame, value, hframe, hbinding⟩ :=
      (tells_redeclaration_iff hstatic (List.cons_ne_nil _ _)).mp ht
    cases hframe
    cases hbinding
  · rw [runIn] at ht
    obtain ⟨d, hd, hmessage⟩ := Program.tells_runIn_static hstatic ht
    exact Program.message_ne_redeclaration hd x hmessage

/-- In a run without static errors no declaration inside a block names a variable that its scope has
bound. A declaration at the top level that execution comes to, and whose initializer has a value,
does so exactly if the environment bound the name in its innermost frame before the run; and the run
tells of just these. An environment always has its global frame. A run that starts with nothing
bound never does, whatever its source. -/
theorem redeclaration_iff_bound (source : String) (filename : Option String)
    (options : RunOptions) (sink : Sink) :
    (∀ env : Environment, env.frames ≠ [] →
      (Program.ofSource source filename).diagnostics = [] →
      let statements := (Program.ofSource source filename).parsed.statements
      let start := (Program.ofSource source filename).start options env sink
      (∀ depth name initializer n,
        Reaches statements start (depth + 1) (.var name initializer) n →
          ∀ x, ¬ (Stmt.var name initializer).FailsWith n (redeclaration x)) ∧
      (∀ name initializer n, Reaches statements start 0 (.var name initializer) n →
        n.Initializes initializer →
          ((Stmt.var name initializer).FailsWith n (redeclaration name.lexeme) ↔
            env.BindsInnermost name.lexeme)) ∧
      ∀ x, (runIn source filename options env sink).Tells (redeclaration x) ↔
        ∃ name initializer n, Reaches statements start 0 (.var name initializer) n ∧
          n.Initializes initializer ∧ name.lexeme = x ∧ env.BindsInnermost x) ∧
    ∀ x, ¬ (run source filename options sink).Tells (redeclaration x) := by
  refine ⟨fun env henv hstatic => ?_, not_tells_redeclaration_run source filename options sink⟩
  intro statements start
  obtain ⟨ns, outer, hn⟩ := Environment.names_eq_cons henv
  have hstart : ((Program.ofSource source filename).start options env sink).env.names =
      ns :: outer := by rwa [Program.env_start]
  have hdistinct := Program.distinctNames_ofSource hstatic
  refine ⟨?_, ?_, fun x => tells_redeclaration_iff hstatic henv⟩
  · intro depth name initializer n hr x hfails
    obtain ⟨inner, outer', hinner, hiff⟩ := hr.names rfl hdistinct hstart
    obtain ⟨-, rfl, hmem⟩ := (Stmt.failsWith_redeclaration_iff hinner).mp hfails
    exact absurd (hiff.mp hmem).1 (Nat.succ_ne_zero depth)
  · intro name initializer n hr hinit
    obtain ⟨inner, outer', hinner, hiff⟩ := hr.names rfl hdistinct hstart
    rw [Stmt.failsWith_redeclaration_iff hinner, Environment.bindsInnermost_iff hn, hiff]
    simp [hinit]

theorem redeclaration_iff_bound_shadowed :
    let source := "var a; \x7b var a; var b; \x7d var b;"
    let env : Environment := ⟨[[("b", .nil)]]⟩
    let options : RunOptions := ⟨.plain, false, false⟩
    (Program.ofSource source none).diagnostics = [] ∧ env.frames ≠ [] ∧
      ∀ x, (runIn source none options env .unlimited).Tells (redeclaration x) → x = "b" := by
  intro source env options
  have hstatic : (Program.ofSource source none).diagnostics = [] := by decide +kernel
  have henv : env.frames ≠ [] := List.cons_ne_nil _ _
  refine ⟨hstatic, henv, fun x hx => ?_⟩
  obtain ⟨-, -, htells⟩ :=
    (redeclaration_iff_bound source none options .unlimited).1 env henv hstatic
  obtain ⟨name, initializer, n, -, -, -, frame, value, hframe, hbinding⟩ := (htells x).mp hx
  cases hframe
  simpa using congrArg Prod.fst (List.mem_singleton.mp hbinding)

end Run

end Treewalk
