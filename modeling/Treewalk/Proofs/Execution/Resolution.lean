import Treewalk.Proofs.Execution.Effect
import Treewalk.Proofs.Run.Outcome

/-! Resolving names before a run. A use of a variable is resolved if a declaration of its name stands
before it in the same list of statements or in one around it. The names that are visible there are
just those that the environment binds when a run comes to it, so a run stops at the first use that is
not resolved, unless it has stopped before. -/

namespace Treewalk

/-- A point at which a run can stop: the use of a variable, resolved or not, or another operation. -/
inductive Site where
  | use (name : Token) (resolved : Bool)
  | operation (token : Token)

def Site.token : Site → Token
  | .use name _ => name
  | .operation token => token

def Site.unresolved : Site → Bool
  | .use _ resolved => !resolved
  | .operation _ => false

def resolve (visible : List String) (name : Token) : Site :=
  .use name (name.lexeme ∈ visible)

/-- The sites of an expression in the order of evaluation: an operator comes behind its operands, and
an assigned name behind the value. -/
def Expr.sites (visible : List String) : Expr → List Site
  | .literal _ => []
  | .grouping inner => inner.sites visible
  | .unary _ token operand => operand.sites visible ++ [.operation token]
  | .binary _ token left right =>
    left.sites visible ++ (right.sites visible ++ [.operation token])
  | .variable name => [resolve visible name]
  | .assign name value => value.sites visible ++ [resolve visible name]

mutual

def Stmt.sites (visible : List String) : Stmt → List Site
  | .expression expr => expr.sites visible
  | .print keyword expr => expr.sites visible ++ [.operation keyword]
  | .var name none => [.operation name]
  | .var name (some initializer) => initializer.sites visible ++ [.operation name]
  | .block body => Stmt.listSites visible body

/-- A name is visible behind its declaration, up to the end of the list that declares it. -/
def Stmt.listSites (visible : List String) : List Stmt → List Site
  | [] => []
  | stmt :: rest =>
    stmt.sites visible ++ Stmt.listSites (stmt.declares.toList ++ visible) rest

end

section Conforming

variable {α β : Type} {xs ys : List Site} {site : Site} {e : RuntimeError}

/-- The error can come from the site: an unresolved use complains of its name, and nothing else
complains of an undefined one. -/
structure Site.Raises (site : Site) (e : RuntimeError) : Prop where
  token_eq : site.token = e.token
  fault_of_unresolved : site.unresolved = true →
    e.fault = .environment (.undefined e.token.lexeme)
  fault_of_resolved : site.unresolved = false → ∀ x, e.fault ≠ .environment (.undefined x)

/-- A success has passed all sites, none of them unresolved; an error comes from one that no
unresolved site stands before. -/
def Conforms (sites : List Site) : Except RuntimeError α → Prop
  | .ok _ => ∀ s ∈ sites, s.unresolved = false
  | .error e => ∃ before site after, sites = before ++ site :: after ∧
      (∀ s ∈ before, s.unresolved = false) ∧ site.Raises e

theorem Conforms.append {a : α} {result : Except RuntimeError β}
    (hx : Conforms xs (.ok a : Except RuntimeError α)) (hy : Conforms ys result) :
    Conforms (xs ++ ys) result := by
  cases result with
  | ok b => exact List.forall_mem_append.mpr ⟨hx, hy⟩
  | error e =>
    obtain ⟨before, site, after, rfl, hbefore, hraises⟩ := hy
    exact ⟨xs ++ before, site, after, by simp, List.forall_mem_append.mpr ⟨hx, hbefore⟩, hraises⟩

theorem Conforms.append_error (hx : Conforms xs (.error e : Except RuntimeError α))
    (ys : List Site) : Conforms (xs ++ ys) (.error e : Except RuntimeError β) := by
  obtain ⟨before, site, after, rfl, hbefore, hraises⟩ := hx
  exact ⟨before, site, after ++ ys, by simp, hbefore, hraises⟩

theorem Site.Raises.conforms (h : site.Raises e) :
    Conforms [site] (.error e : Except RuntimeError α) :=
  ⟨[], site, [], rfl, by simp, h⟩

theorem Site.raises_operation {token : Token} (ht : e.token = token)
    (h : ∀ x, e.fault ≠ .environment (.undefined x)) : (Site.operation token).Raises e where
  token_eq := ht.symm
  fault_of_unresolved hu := nomatch hu
  fault_of_resolved _ := h

theorem Conforms.operation {token : Token} {result : Except RuntimeError α}
    (h : ∀ e, result = .error e → (Site.operation token).Raises e) :
    Conforms [.operation token] result := by
  cases result with
  | ok a => simp [Conforms, Site.unresolved]
  | error e => exact (h e rfl).conforms

theorem conforms_faultAt {token : Token} {result : Except RuntimeFault α}
    (h : ∀ error, result ≠ .error (.environment error)) :
    Conforms [.operation token] (faultAt token result) := by
  refine Conforms.operation fun e he => ?_
  have hfault := faultAt_eq_error he
  cases result with
  | ok a => cases he
  | error fault =>
    cases he
    exact Site.raises_operation rfl fun x hx => h _ (by rw [hfault, hx])

end Conforming

section Visible

variable {env env' : Environment} {visible : List String} {x : String} {v : Value}

/-- The names are those that the environment binds. -/
def Environment.Models (env : Environment) (visible : List String) : Prop :=
  ∀ x, x ∈ visible ↔ ∃ ns ∈ env.names, x ∈ ns

theorem Environment.Models.congr (h : env.Models visible) (hn : env'.names = env.names) :
    env'.Models visible := by
  rwa [Environment.Models, hn]

theorem Environment.Models.push (h : env.Models visible) : env.push.Models visible := by
  intro x
  have hn : env.push.names = [] :: env.names := rfl
  simp [hn, h x]

theorem Environment.Models.extend {ns bound : List String} {outer : List (List String)}
    (h : env.Models visible) (hn : env.names = ns :: outer)
    (hn' : env'.names = (bound ++ ns) :: outer) : env'.Models (bound ++ visible) := by
  intro x
  rw [List.mem_append, h x, hn, hn']
  simp [or_assoc]

theorem Frame.lookup_eq_none_iff {frame : Frame} :
    frame.lookup x = none ↔ x ∉ frame.map Prod.fst := by
  rw [List.lookup_eq_none_iff, List.mem_map]
  constructor
  · rintro h ⟨binding, hb, rfl⟩
    simpa using h binding hb
  · intro h binding hb
    simp only [bne_iff_ne]
    rintro rfl
    exact h ⟨binding, hb, rfl⟩

theorem Frame.assign?_eq_none_iff {frame : Frame} :
    Frame.assign? x v frame = none ↔ x ∉ frame.map Prod.fst := by
  refine ⟨Frame.not_mem_of_assign?, fun h => ?_⟩
  induction frame with
  | nil => rfl
  | cons binding rest ih =>
    rw [List.map_cons, List.mem_cons, not_or] at h
    simp [Frame.assign?, Ne.symm h.1, ih h.2]

theorem assignNearest?_eq_none_iff {frames : List Frame} :
    assignNearest? x v frames = none ↔ ∀ frame ∈ frames, x ∉ frame.map Prod.fst := by
  induction frames with
  | nil => simp [assignNearest?]
  | cons frame rest ih =>
    rw [List.forall_mem_cons, ← ih, assignNearest?]
    cases hframe : Frame.assign? x v frame with
    | none => simp [Frame.assign?_eq_none_iff.mp hframe]
    | some frame' =>
      refine iff_of_false (by simp) fun h => ?_
      rw [Frame.assign?_eq_none_iff.mpr h.1] at hframe
      cases hframe

theorem Environment.Models.not_mem_iff (h : env.Models visible) :
    x ∉ visible ↔ ∀ frame ∈ env.frames, x ∉ frame.map Prod.fst := by
  rw [h x, Environment.names]
  simp

theorem Environment.Models.get (h : env.Models visible) :
    if x ∈ visible then ∃ v, env.get x = .ok v else env.get x = .error (.undefined x) := by
  have hnone : env.frames.findSome? (·.lookup x) = none ↔ x ∉ visible := by
    rw [h.not_mem_iff, List.findSome?_eq_none_iff]
    simp only [Frame.lookup_eq_none_iff]
  unfold Environment.get
  split
  · rename_i hx
    cases hf : env.frames.findSome? (·.lookup x) with
    | none => exact absurd hx (hnone.mp hf)
    | some v => exact ⟨v, rfl⟩
  · rename_i hx
    rw [hnone.mpr hx]

theorem Environment.Models.assign (h : env.Models visible) (v : Value) :
    if x ∈ visible then ∃ env', env.assign x v = .ok env'
    else env.assign x v = .error (.undefined x) := by
  have hnone : assignNearest? x v env.frames = none ↔ x ∉ visible := by
    rw [h.not_mem_iff, assignNearest?_eq_none_iff]
  unfold Environment.assign
  split
  · rename_i hx
    cases hf : assignNearest? x v env.frames with
    | none => exact absurd hx (hnone.mp hf)
    | some frames => exact ⟨⟨frames⟩, rfl⟩
  · rename_i hx
    rw [hnone.mpr hx]

theorem conforms_resolve {α : Type} {name : Token} {result : Except EnvironmentError α}
    (h : if name.lexeme ∈ visible then ∃ a, result = .ok a
      else result = .error (.undefined name.lexeme)) :
    Conforms [resolve visible name] (environmentFaultAt name result) := by
  split at h
  · rename_i hx
    obtain ⟨a, rfl⟩ := h
    have hok : environmentFaultAt name (.ok a) = .ok a := rfl
    rw [hok]
    simpa [Conforms, resolve, Site.unresolved] using hx
  · rename_i hx
    rw [h]
    refine Site.Raises.conforms ⟨rfl, fun _ => rfl, fun hr => ?_⟩
    exact absurd hr (by simp [resolve, Site.unresolved, hx])

end Visible

theorem Expr.conforms_eval (expr : Expr) {env : Environment} {visible : List String}
    (h : env.Models visible) : Conforms (expr.sites visible) (expr.eval env).1 := by
  induction expr generalizing env with
  | literal value => simp [Expr.sites, Expr.eval, Conforms]
  | grouping inner ih => exact ih h
  | unary op token operand ih =>
    have ho := ih h
    rw [Expr.eval, Expr.sites]
    split
    · rename_i heq
      rw [heq] at ho
      exact ho.append (conforms_faultAt fun error => UnaryOp.apply_ne_environment)
    · rename_i heq
      rw [heq] at ho
      exact ho.append_error _
  | binary op token left right ihl ihr =>
    have hl := ihl h
    have hn := left.names_eval env
    rw [Expr.eval, Expr.sites]
    split
    · rename_i value env' heq
      rw [heq] at hl hn
      have hr := ihr (h.congr hn)
      refine hl.append ?_
      split
      · rename_i heq'
        rw [heq'] at hr
        exact hr.append (conforms_faultAt fun error => BinaryOp.apply_ne_environment)
      · rename_i heq'
        rw [heq'] at hr
        exact hr.append_error _
    · rename_i heq
      rw [heq] at hl
      exact hl.append_error _
  | «variable» name => exact conforms_resolve h.get
  | assign name value ih =>
    have hv := ih h
    have hn := value.names_eval env
    rw [Expr.eval, Expr.sites]
    split
    · rename_i result env' heq
      rw [heq] at hv hn
      have ha : Conforms [resolve visible name]
          (environmentFaultAt name (env'.assign name.lexeme result)) :=
        conforms_resolve ((h.congr hn).assign result)
      refine hv.append ?_
      split
      · rename_i hassign
        rw [hassign] at ha
        exact ha
      · rename_i hassign
        rw [hassign] at ha
        exact ha
    · rename_i heq
      rw [heq] at hv
      exact hv.append_error _

theorem Machine.conforms_declare (m : Machine) (name : Token) (value : Value) :
    Conforms [.operation name] (m.declare name value).1 := by
  refine Conforms.operation fun e he => ?_
  unfold Machine.declare at he
  split at he
  · cases he
  · rename_i hfailed
    cases he
    obtain ⟨error, hdefine, rfl⟩ := environmentFaultAt_eq_error hfailed
    refine Site.raises_operation rfl fun x hx => ?_
    cases hx
    unfold Environment.define at hdefine
    split at hdefine
    · cases hdefine
    · split at hdefine <;> cases hdefine

theorem Machine.conforms_print (m : Machine) (keyword : Token) (line : String) :
    Conforms [.operation keyword] (m.print keyword line).1 := by
  refine Conforms.operation fun e he => ?_
  unfold Machine.print at he
  split at he
  · cases he
  · cases he
    exact Site.raises_operation rfl (by simp)

mutual

theorem Stmt.conforms_exec : ∀ (stmt : Stmt) {m : Machine} {visible ns : List String}
    {outer : List (List String)}, m.env.names = ns :: outer → m.env.Models visible →
      Conforms (stmt.sites visible) (stmt.exec m).1
  | .expression expr, m, visible, ns, outer, hn, hv => by
    have he : Conforms (expr.sites visible) (m.eval expr).1 := expr.conforms_eval hv
    rw [Stmt.exec, Stmt.sites]
    split <;> rename_i heq <;> rw [heq] at he <;> exact he
  | .print keyword expr, m, visible, ns, outer, hn, hv => by
    have he : Conforms (expr.sites visible) (m.eval expr).1 := expr.conforms_eval hv
    rw [Stmt.exec, Stmt.sites]
    split
    · rename_i heq
      rw [heq] at he
      exact he.append (Machine.conforms_print _ keyword _)
    · rename_i heq
      rw [heq] at he
      exact he.append_error _
  | .var name none, m, visible, ns, outer, hn, hv => by
    rw [Stmt.exec, Stmt.sites]
    exact m.conforms_declare name .nil
  | .var name (some initializer), m, visible, ns, outer, hn, hv => by
    have he : Conforms (initializer.sites visible) (m.eval initializer).1 :=
      initializer.conforms_eval hv
    rw [Stmt.exec, Stmt.sites]
    split
    · rename_i heq
      rw [heq] at he
      exact he.append (Machine.conforms_declare _ name _)
    · rename_i heq
      rw [heq] at he
      exact he.append_error _
  | .block body, m, visible, ns, outer, hn, hv => by
    have henter : m.enter.env.names = [] :: ns :: outer := congrArg ([] :: ·) hn
    rw [Stmt.exec, Stmt.sites]
    exact Stmt.conforms_execAll body henter hv.push

theorem Stmt.conforms_execAll : ∀ (body : List Stmt) {m : Machine} {visible ns : List String}
    {outer : List (List String)}, m.env.names = ns :: outer → m.env.Models visible →
      Conforms (Stmt.listSites visible body) (Stmt.execAll body m).1
  | [], m, visible, ns, outer, hn, hv => by simp [Stmt.listSites, Stmt.execAll, Conforms]
  | stmt :: rest, m, visible, ns, outer, hn, hv => by
    have hs := stmt.conforms_exec hn hv
    have hnames := stmt.names_exec hn
    rw [Stmt.execAll, Stmt.listSites]
    split
    · rename_i m' heq
      rw [heq] at hs hnames
      exact hs.append (Stmt.conforms_execAll rest hnames (hv.extend hn hnames))
    · rename_i heq
      rw [heq] at hs
      exact hs.append_error _

end

section Run

/-- What is said of a name that is not bound. -/
def undefinedVariable (x : String) : String :=
  "Undefined variable '" ++ x ++ "'."

theorem RuntimeFault.eq_undefined_of_message {fault : RuntimeFault} {x : String}
    (h : fault.message = undefinedVariable x) : ∃ y, fault = .environment (.undefined y) := by
  have hhead : fault.message.toList.head? = some 'U' := by
    rw [h]
    exact head?_toList_append (head?_toList_append (by decide) x) _
  cases fault with
  | environment error =>
    cases error with
    | undefined name => exact ⟨name, rfl⟩
    | alreadyDeclared name =>
      have hother : (RuntimeFault.environment (.alreadyDeclared name)).message.toList.head? =
          some 'V' := head?_redeclaration name
      rw [hother] at hhead
      exact absurd hhead (by decide)
  | outputFailed reason =>
    have hother : (RuntimeFault.outputFailed reason).message.toList.head? = some 'F' :=
      head?_toList_append (by decide) reason
    rw [hother] at hhead
    exact absurd hhead (by decide)
  | cannotNegate _ =>
    have hother : "Operand must be a number.".toList.head? ≠ some 'U' := by decide
    exact absurd hhead hother
  | cannotAdd _ _ =>
    have hother : "Operands must be two numbers or two strings.".toList.head? ≠ some 'U' := by
      decide
    exact absurd hhead hother
  | notNumbers _ _ =>
    have hother : "Operands must be numbers.".toList.head? ≠ some 'U' := by decide
    exact absurd hhead hother

theorem Environment.models_initial : Environment.initial.Models [] := by
  intro x
  simp [Environment.initial, Environment.names]

theorem Program.conforms_start (p : Program) (options : RunOptions) (sink : Sink) :
    Conforms (Stmt.listSites [] p.parsed.statements)
      (Stmt.execAll p.parsed.statements (p.start options .initial sink)).1 :=
  Stmt.conforms_execAll p.parsed.statements (m := p.start options .initial sink) rfl
    Environment.models_initial

/-- A run that starts with nothing bound complains of an undefined variable only if some use of a
variable is not resolved; and if there is such a use, the run stops with an error, at a site that no
unresolved use stands before in the order of evaluation. -/
theorem run_stops_at_unresolved (source : String) (filename : Option String)
    (options : RunOptions) (sink : Sink)
    (h : (Program.ofSource source filename).diagnostics = []) :
    let sites := Stmt.listSites [] (Program.ofSource source filename).parsed.statements
    let outcome := run source filename options sink
    ((∀ site ∈ sites, site.unresolved = false) →
      ∀ x, ¬ outcome.Tells (undefinedVariable x)) ∧
    ((∃ site ∈ sites, site.unresolved = true) →
      outcome.status = .runtimeError ∧
        ∃ e before site after, outcome.diagnostics = [e.diagnostic] ∧
          sites = before ++ site :: after ∧ (∀ s ∈ before, s.unresolved = false) ∧
          site.Raises e) := by
  intro sites outcome
  let p := Program.ofSource source filename
  have hconforms := p.conforms_start options sink
  constructor
  · intro hresolved x htells
    obtain ⟨e, he, hmessage⟩ := (Program.tells_runIn_iff h).mp htells
    obtain ⟨y, hfault⟩ := RuntimeFault.eq_undefined_of_message hmessage
    rw [he] at hconforms
    obtain ⟨before, site, after, hsites, -, hraises⟩ := hconforms
    have hsplit : sites = before ++ site :: after := hsites
    have hsite : site ∈ sites := by simp [hsplit]
    exact hraises.fault_of_resolved (hresolved site hsite) y hfault
  · rintro ⟨site, hsite, hunresolved⟩
    obtain ⟨hstatus, -, -, ha⟩ := Program.runIn_executed h options .initial sink
    cases hx : (Stmt.execAll p.parsed.statements (p.start options .initial sink)).1 with
    | ok _ =>
      rw [hx] at hconforms
      have hfalse := hconforms site hsite
      rw [hunresolved] at hfalse
      cases hfalse
    | error e =>
      rw [hx] at hconforms hstatus ha
      obtain ⟨before, site, after, hsites, hbefore, hraises⟩ := hconforms
      exact ⟨hstatus, e, before, site, after, ha.diagnostics_eq, hsites, hbefore, hraises⟩

theorem run_stops_at_unresolved_initializer :
    let source := "var a = b; \x7b var a = a; \x7d"
    let options : RunOptions := ⟨.plain, false, false⟩
    (Program.ofSource source none).diagnostics = [] ∧
      (∃ site ∈ Stmt.listSites [] (Program.ofSource source none).parsed.statements,
        site.unresolved = true) ∧
      (run source none options .unlimited).status = .runtimeError := by
  intro source options
  have hstatic : (Program.ofSource source none).diagnostics = [] := by decide +kernel
  have hsite : ∃ site ∈ Stmt.listSites [] (Program.ofSource source none).parsed.statements,
      site.unresolved = true := by decide +kernel
  have h := run_stops_at_unresolved source none options .unlimited hstatic
  exact ⟨hstatic, hsite, (h.2 hsite).1⟩

end Run

end Treewalk
