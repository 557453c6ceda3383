import Treewalk.Exec

/-! The names that the frames of an environment bind, and what evaluating and executing do to them.
Evaluating keeps all names. A statement that succeeds adds the name that it declares to the
innermost frame, and one that fails adds none; the names of the other frames stay. -/

namespace Treewalk

/-- The names bound by each frame, the innermost first. -/
def Environment.names (env : Environment) : List (List String) :=
  env.frames.map fun frame => frame.map Prod.fst

theorem Environment.names_eq_cons {env : Environment} (h : env.frames ≠ []) :
    ∃ ns outer, env.names = ns :: outer :=
  List.exists_cons_of_ne_nil (by simpa [Environment.names] using h)

theorem Frame.map_fst_assign? {name : String} {value : Value} {frame frame' : Frame}
    (h : Frame.assign? name value frame = some frame') :
    frame'.map Prod.fst = frame.map Prod.fst := by
  induction frame generalizing frame' with
  | nil => cases h
  | cons binding rest ih =>
    unfold Frame.assign? at h
    split at h
    · cases h
      rfl
    · obtain ⟨rest', hrest, rfl⟩ := Option.map_eq_some_iff.mp h
      rw [List.map_cons, List.map_cons, ih hrest]

theorem map_fst_assignNearest? {name : String} {value : Value} {frames frames' : List Frame}
    (h : assignNearest? name value frames = some frames') :
    (frames'.map fun frame => frame.map Prod.fst) = frames.map fun frame => frame.map Prod.fst := by
  induction frames generalizing frames' with
  | nil => cases h
  | cons frame rest ih =>
    unfold assignNearest? at h
    split at h
    · rename_i frame' hframe
      cases h
      rw [List.map_cons, List.map_cons, Frame.map_fst_assign? hframe]
    · obtain ⟨rest', hrest, rfl⟩ := Option.map_eq_some_iff.mp h
      rw [List.map_cons, List.map_cons, ih hrest]

theorem Environment.names_assign {env env' : Environment} {name : String} {value : Value}
    (h : env.assign name value = .ok env') : env'.names = env.names := by
  unfold Environment.assign at h
  split at h
  · rename_i frames hframes
    cases h
    exact map_fst_assignNearest? hframes
  · cases h

theorem environmentFaultAt_eq_ok {α : Type} {name : Token} {result : Except EnvironmentError α}
    {a : α} (h : environmentFaultAt name result = .ok a) : result = .ok a := by
  cases result with
  | ok b =>
    cases h
    rfl
  | error e => cases h

theorem Expr.names_eval (expr : Expr) (env : Environment) :
    (expr.eval env).2.names = env.names := by
  induction expr generalizing env with
  | literal value => rfl
  | grouping inner ih => exact ih env
  | unary op token operand ih =>
    have h := ih env
    rw [Expr.eval]
    split <;> rename_i heq <;> rwa [heq] at h
  | binary op token left right ihl ihr =>
    have hl := ihl env
    rw [Expr.eval]
    split
    · rename_i value env' heq
      have hr := ihr env'
      rw [heq] at hl
      split <;> rename_i heq' <;> rw [heq'] at hr <;> exact hr.trans hl
    · rename_i heq
      rwa [heq] at hl
  | «variable» name => rfl
  | assign name expr ih =>
    have h := ih env
    rw [Expr.eval]
    split
    · rename_i value env' heq
      rw [heq] at h
      split
      · rename_i env'' hassign
        exact (Environment.names_assign (environmentFaultAt_eq_ok hassign)).trans h
      · exact h
    · rename_i heq
      rwa [heq] at h

theorem Machine.names_eval (m : Machine) (expr : Expr) : (m.eval expr).2.env.names = m.env.names :=
  expr.names_eval m.env

theorem Machine.env_print (m : Machine) (keyword : Token) (line : String) :
    (m.print keyword line).2.env = m.env := by
  unfold Machine.print
  split <;> rfl

/-- A name that the innermost frame binds cannot be declared. -/
theorem Machine.declare_of_mem {m : Machine} {ns : List String} {outer : List (List String)}
    {name : Token} (hn : m.env.names = ns :: outer) (h : name.lexeme ∈ ns) (value : Value) :
    m.declare name value =
      (.error ⟨.environment (.alreadyDeclared name.lexeme), name⟩, m) := by
  obtain ⟨frame, rest, hframes, rfl, -⟩ := List.map_eq_cons_iff.mp hn
  cases hl : frame.lookup name.lexeme with
  | some old =>
    have hdefine : m.env.define name.lexeme value = .error (.alreadyDeclared name.lexeme) := by
      simp [Environment.define, hframes, hl]
    rw [Machine.declare, hdefine]
    rfl
  | none =>
    obtain ⟨binding, hb, hname⟩ := List.mem_map.mp h
    have hne := List.lookup_eq_none_iff.mp hl binding hb
    simp [hname] at hne

/-- Any other name can be, and joins the names of the innermost frame. -/
theorem Machine.declare_of_not_mem {m : Machine} {ns : List String} {outer : List (List String)}
    {name : Token} (hn : m.env.names = ns :: outer) (h : name.lexeme ∉ ns) (value : Value) :
    ∃ m', m.declare name value = (.ok (), m') ∧ m'.env.names = (name.lexeme :: ns) :: outer := by
  obtain ⟨frame, rest, hframes, rfl, rfl⟩ := List.map_eq_cons_iff.mp hn
  have hl : frame.lookup name.lexeme = none := by
    rw [List.lookup_eq_none_iff]
    intro binding hb
    simp only [bne_iff_ne]
    intro hname
    exact h (List.mem_map.mpr ⟨binding, hb, hname.symm⟩)
  have hdefine : m.env.define name.lexeme value =
      .ok ⟨((name.lexeme, value) :: frame) :: rest⟩ := by
    simp [Environment.define, hframes, hl]
  refine ⟨{ m with env := ⟨((name.lexeme, value) :: frame) :: rest⟩ }, ?_, rfl⟩
  rw [Machine.declare, hdefine]
  rfl

/-- What a statement that ended with a result has added to the names of its scope. -/
def Stmt.bound (stmt : Stmt) : Except RuntimeError Unit → List String
  | .ok _ => stmt.declares.toList
  | .error _ => []

theorem Stmt.bound_of_declares_eq_none {stmt : Stmt} (h : stmt.declares = none)
    (result : Except RuntimeError Unit) : stmt.bound result = [] := by
  cases result with
  | ok _ => simp [Stmt.bound, h]
  | error _ => rfl

theorem Machine.names_declare {m : Machine} {ns : List String} {outer : List (List String)}
    (hn : m.env.names = ns :: outer) (name : Token) (initializer : Option Expr) (value : Value) :
    (m.declare name value).2.env.names =
      ((Stmt.var name initializer).bound (m.declare name value).1 ++ ns) :: outer := by
  by_cases h : name.lexeme ∈ ns
  · rw [Machine.declare_of_mem hn h]
    exact hn
  · obtain ⟨m', hm, hnames⟩ := Machine.declare_of_not_mem hn h value
    rw [hm]
    exact hnames

theorem Machine.names_leave {m : Machine} {inner ns : List String} {outer : List (List String)}
    (hn : m.env.names = inner :: ns :: outer) : m.leave.env.names = ns :: outer := by
  obtain ⟨frame, rest, hframes, -, hrest⟩ := List.map_eq_cons_iff.mp hn
  obtain ⟨frame', rest', rfl, -, -⟩ := List.map_eq_cons_iff.mp hrest
  rw [← hrest]
  simp [Machine.leave, Environment.pop, Environment.names, hframes]

/-- The statements that run before the first error. -/
def Stmt.completed : List Stmt → Machine → List Stmt
  | [], _ => []
  | stmt :: rest, m =>
    match stmt.exec m with
    | (.ok _, m) => stmt :: Stmt.completed rest m
    | (.error _, _) => []

mutual

theorem Stmt.names_exec : ∀ (stmt : Stmt) {m : Machine} {ns : List String}
    {outer : List (List String)}, m.env.names = ns :: outer →
      (stmt.exec m).2.env.names = (stmt.bound (stmt.exec m).1 ++ ns) :: outer
  | .expression expr, m, ns, outer, hn => by
    have he := m.names_eval expr
    rw [Stmt.bound_of_declares_eq_none rfl, Stmt.exec]
    split <;> rename_i heq <;> rw [heq] at he <;> exact he.trans hn
  | .print keyword expr, m, ns, outer, hn => by
    have he := m.names_eval expr
    rw [Stmt.bound_of_declares_eq_none rfl, Stmt.exec]
    split
    · rename_i heq
      rw [heq] at he
      rw [Machine.env_print]
      exact he.trans hn
    · rename_i heq
      rw [heq] at he
      exact he.trans hn
  | .var name none, m, ns, outer, hn => by
    rw [Stmt.exec]
    exact Machine.names_declare hn name none .nil
  | .var name (some initializer), m, ns, outer, hn => by
    have he := m.names_eval initializer
    rw [Stmt.exec]
    split
    · rename_i heq
      rw [heq] at he
      exact Machine.names_declare (he.trans hn) name _ _
    · rename_i heq
      rw [heq] at he
      exact he.trans hn
  | .block body, m, ns, outer, hn => by
    have henter : m.enter.env.names = [] :: ns :: outer := congrArg ([] :: ·) hn
    have hbody := Stmt.names_execAll body henter
    rw [Stmt.bound_of_declares_eq_none rfl, Stmt.exec]
    exact Machine.names_leave hbody

/-- Statements run up to the first error add the names that those before it declare. -/
theorem Stmt.names_execAll : ∀ (body : List Stmt) {m : Machine} {ns : List String}
    {outer : List (List String)}, m.env.names = ns :: outer →
      (Stmt.execAll body m).2.env.names =
        (((Stmt.completed body m).filterMap Stmt.declares).reverse ++ ns) :: outer
  | [], m, ns, outer, hn => hn
  | stmt :: body, m, ns, outer, hn => by
    have hs := stmt.names_exec hn
    rw [Stmt.execAll, Stmt.completed]
    rcases hx : stmt.exec m with ⟨result, m'⟩
    rw [hx] at hs
    cases result with
    | ok _ =>
      have hbody := Stmt.names_execAll body hs
      dsimp only
      rw [hbody]
      cases hd : stmt.declares <;> simp [Stmt.bound, hd]
    | error _ => exact hs

end

end Treewalk
