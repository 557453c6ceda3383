import Treewalk.Proofs.Execution.Names
import Treewalk.Run

/-! What running statements does to an environment, whether they succeed or fail. All frames stay,
the names of the completed declarations join the innermost one, and a value changes only in the
nearest binding of a name, and only if the name is assigned where no declaration of it stands
before. -/

namespace Treewalk

def Expr.assigns : Expr → List String
  | .literal _ => []
  | .grouping inner => inner.assigns
  | .unary _ _ operand => operand.assigns
  | .binary _ _ left right => left.assigns ++ right.assigns
  | .variable _ => []
  | .assign name value => name.lexeme :: value.assigns

mutual

/-- The names that are assigned where no declaration of them stands before, neither in the same list
of statements nor in one around it. -/
def Stmt.openAssigns : Stmt → List String
  | .expression expr => expr.assigns
  | .print _ expr => expr.assigns
  | .var _ none => []
  | .var _ (some initializer) => initializer.assigns
  | .block body => Stmt.listOpenAssigns body

def Stmt.listOpenAssigns : List Stmt → List String
  | [] => []
  | stmt :: rest =>
    stmt.openAssigns ++ (Stmt.listOpenAssigns rest).filter (fun x => some x ≠ stmt.declares)

end

/-- The frame at this depth, counted from the innermost one, gives the name the value. -/
def Environment.Binds (env : Environment) (i : Nat) (x : String) (v : Value) : Prop :=
  ∃ frame, env.frames[i]? = some frame ∧ frame.lookup x = some v

/-- A frame nearer than the one at this depth binds the name. -/
def Environment.Shadowed (env : Environment) (i : Nat) (x : String) : Prop :=
  ∃ j < i, ∃ ns, env.names[j]? = some ns ∧ x ∈ ns

variable {env env' : Environment} {i : Nat} {x y : String} {v w : Value}

section Frames

theorem Frame.lookup_assign? {frame frame' : Frame} (h : Frame.assign? y w frame = some frame')
    (hne : x ≠ y) : frame'.lookup x = frame.lookup x := by
  induction frame generalizing frame' with
  | nil => cases h
  | cons binding rest ih =>
    obtain ⟨n, old⟩ := binding
    unfold Frame.assign? at h
    split at h
    · rename_i hn
      cases h
      have hx : (x == n) = false := by simpa [hn] using hne
      simp [List.lookup_cons, hx]
    · obtain ⟨rest', hrest, rfl⟩ := Option.map_eq_some_iff.mp h
      have hr := ih hrest
      simp [List.lookup_cons, hr]

theorem Frame.not_mem_of_assign? {frame : Frame} (h : Frame.assign? y w frame = none) :
    y ∉ frame.map Prod.fst := by
  induction frame with
  | nil => simp
  | cons binding rest ih =>
    unfold Frame.assign? at h
    split at h
    · cases h
    · rename_i hn
      have hr := ih (Option.map_eq_none_iff.mp h)
      rw [List.map_cons, List.mem_cons]
      rintro (he | he)
      · exact hn he.symm
      · exact hr he

theorem Environment.Binds.frames_ne_nil (h : env.Binds i x v) : env.frames ≠ [] := by
  obtain ⟨frame, hframe, -⟩ := h
  intro hnil
  simp [hnil] at hframe

theorem Environment.Binds.mem_names {ns : List String} {outer : List (List String)}
    (h : env.Binds 0 x v) (hn : env.names = ns :: outer) : x ∈ ns := by
  obtain ⟨frame, hframe, hx⟩ := h
  obtain ⟨first, rest, hframes, rfl, -⟩ := List.map_eq_cons_iff.mp hn
  rw [hframes, List.getElem?_cons_zero, Option.some.injEq] at hframe
  subst hframe
  obtain ⟨l₁, l₂, rfl, -⟩ := List.lookup_eq_some_iff.mp hx
  simp

/-- An assignment changes no other name, and none that a nearer frame binds. -/
theorem assignNearest?_binds {frames frames' : List Frame} {frame : Frame}
    (h : assignNearest? y w frames = some frames') (hframe : frames[i]? = some frame)
    (hx : frame.lookup x = some v)
    (hs : x = y → (⟨frames⟩ : Environment).Shadowed i x) :
    ∃ frame', frames'[i]? = some frame' ∧ frame'.lookup x = some v := by
  induction frames generalizing frames' i with
  | nil => cases h
  | cons first rest ih =>
    unfold assignNearest? at h
    split at h
    · rename_i first' hfirst
      cases h
      cases i with
      | zero =>
        have hne : x ≠ y := by
          intro he
          obtain ⟨j, hj, -⟩ := hs he
          omega
        cases hframe
        exact ⟨first', rfl, by rw [Frame.lookup_assign? hfirst hne, hx]⟩
      | succ i => exact ⟨frame, hframe, hx⟩
    · rename_i hfirst
      obtain ⟨rest', hrest, rfl⟩ := Option.map_eq_some_iff.mp h
      cases i with
      | zero => exact ⟨frame, hframe, hx⟩
      | succ i =>
        have hs' : x = y → (⟨rest⟩ : Environment).Shadowed i x := by
          intro he
          obtain ⟨j, hj, ns, hns, hmem⟩ := hs he
          cases j with
          | zero =>
            -- The first frame binds no `y`, or the assignment would have ended there.
            cases hns
            exact absurd (he ▸ hmem) (Frame.not_mem_of_assign? hfirst)
          | succ j => exact ⟨j, by omega, ns, hns, hmem⟩
        obtain ⟨frame', hframe', hx'⟩ := ih hrest hframe hs'
        exact ⟨frame', hframe', hx'⟩

end Frames

section Operations

theorem Environment.Binds.assign (h : env.Binds i x v) (ha : env.assign y w = .ok env')
    (hs : x = y → env.Shadowed i x) : env'.Binds i x v := by
  obtain ⟨frame, hframe, hx⟩ := h
  unfold Environment.assign at ha
  split at ha
  · rename_i frames hframes
    cases ha
    exact assignNearest?_binds hframes hframe hx hs
  · cases ha

theorem Environment.Binds.define (h : env.Binds i x v) (hd : env.define y w = .ok env') :
    env'.Binds i x v := by
  obtain ⟨frame, hframe, hx⟩ := h
  unfold Environment.define at hd
  split at hd
  · rename_i hnil
    simp [hnil] at hframe
  · rename_i first rest hframes
    split at hd
    · cases hd
    · rename_i hfree
      cases hd
      rw [hframes] at hframe
      cases i with
      | zero =>
        cases hframe
        have hne : x ≠ y := by
          rintro rfl
          rw [hfree] at hx
          cases hx
        have hbeq : (x == y) = false := by simpa using hne
        exact ⟨(y, w) :: frame, rfl, by simp [List.lookup_cons, hbeq, hx]⟩
      | succ i => exact ⟨frame, hframe, hx⟩

theorem Environment.Binds.push (h : env.Binds i x v) : env.push.Binds (i + 1) x v := h

theorem Environment.Binds.pop (h : env.Binds (i + 1) x v) : env.pop.Binds i x v := by
  obtain ⟨frame, hframe, hx⟩ := h
  obtain ⟨frames⟩ := env
  match frames with
  | [] => cases hframe
  | [_] => cases hframe
  | _ :: _ :: _ => exact ⟨frame, hframe, hx⟩

theorem Environment.Shadowed.push (h : env.Shadowed i x) : env.push.Shadowed (i + 1) x := by
  obtain ⟨j, hj, ns, hns, hmem⟩ := h
  exact ⟨j + 1, by omega, ns, hns, hmem⟩

theorem Environment.Shadowed.of_names {bound ns : List String} {outer : List (List String)}
    (h : env.Shadowed i x) (hn : env.names = ns :: outer)
    (hn' : env'.names = (bound ++ ns) :: outer) : env'.Shadowed i x := by
  obtain ⟨j, hj, ms, hms, hmem⟩ := h
  rw [hn] at hms
  cases j with
  | zero =>
    cases hms
    exact ⟨0, hj, bound ++ ns, by rw [hn']; rfl, List.mem_append_right _ hmem⟩
  | succ j => exact ⟨j + 1, hj, ms, by rwa [hn'], hmem⟩

theorem Environment.Shadowed.congr (h : env.Shadowed i x) (hn : env'.names = env.names) :
    env'.Shadowed i x := by
  rwa [Environment.Shadowed, hn]

end Operations

theorem Expr.binds_eval (expr : Expr) (h : env.Binds i x v)
    (hs : x ∈ expr.assigns → env.Shadowed i x) : (expr.eval env).2.Binds i x v := by
  induction expr generalizing env with
  | literal value => exact h
  | grouping inner ih => exact ih h hs
  | unary op token operand ih =>
    have ho := ih h hs
    rw [Expr.eval]
    split <;> rename_i heq <;> rwa [heq] at ho
  | binary op token left right ihl ihr =>
    have hl := ihl h fun hx => hs (List.mem_append_left _ hx)
    have hn := left.names_eval env
    rw [Expr.eval]
    split
    · rename_i value env' heq
      rw [heq] at hl hn
      have hr := ihr hl fun hx => (hs (List.mem_append_right _ hx)).congr hn
      split <;> rename_i heq' <;> rwa [heq'] at hr
    · rename_i heq
      rwa [heq] at hl
  | «variable» name => exact h
  | assign name value ih =>
    have hv := ih h fun hx => hs (List.mem_cons_of_mem _ hx)
    have hn := value.names_eval env
    rw [Expr.eval]
    split
    · rename_i result env' heq
      rw [heq] at hv hn
      split
      · rename_i env'' hassign
        refine hv.assign (environmentFaultAt_eq_ok hassign) fun he => ?_
        exact (hs (by simp [Expr.assigns, he])).congr hn
      · exact hv
    · rename_i heq
      rwa [heq] at hv

theorem Machine.sink_eval (m : Machine) (expr : Expr) : (m.eval expr).2.sink = m.sink := rfl

theorem Machine.binds_declare {m : Machine} (h : m.env.Binds i x v) (name : Token) (value : Value) :
    (m.declare name value).2.env.Binds i x v := by
  unfold Machine.declare
  split
  · rename_i env' hd
    exact h.define (environmentFaultAt_eq_ok hd)
  · exact h

/-- A declaration that succeeds names nothing that its frame has bound. -/
theorem Stmt.not_mem_of_exec_ok {stmt : Stmt} {m m' : Machine} {ns : List String}
    {outer : List (List String)} (h : stmt.exec m = (.ok (), m'))
    (hn : m.env.names = ns :: outer) (hx : stmt.declares = some x) : x ∉ ns := by
  intro hmem
  have hfails : ∀ {m₁ : Machine} {name : Token} {value : Value}, name.lexeme = x →
      m₁.env.names = m.env.names → m₁.declare name value ≠ (.ok (), m') := by
    intro m₁ name value hname hn₁ hd
    rw [Machine.declare_of_mem (hn₁.trans hn) (hname ▸ hmem)] at hd
    cases hd
  cases stmt with
  | expression expr => cases hx
  | print keyword expr => cases hx
  | block body => cases hx
  | var name initializer =>
    cases hx
    cases initializer with
    | none =>
      rw [Stmt.exec] at h
      exact hfails rfl rfl h
    | some initializer =>
      have he := m.names_eval initializer
      rw [Stmt.exec] at h
      split at h
      · rename_i heq
        rw [heq] at he
        exact hfails rfl he h
      · cases h

mutual

theorem Stmt.binds_exec : ∀ (stmt : Stmt) {m : Machine} {i : Nat}, m.env.Binds i x v →
    (x ∈ stmt.openAssigns → m.env.Shadowed i x) → (stmt.exec m).2.env.Binds i x v
  | .expression expr, m, i, h, hs => by
    have he : (m.eval expr).2.env.Binds i x v := expr.binds_eval h hs
    rw [Stmt.exec]
    split <;> rename_i heq <;> rwa [heq] at he
  | .print keyword expr, m, i, h, hs => by
    have he : (m.eval expr).2.env.Binds i x v := expr.binds_eval h hs
    rw [Stmt.exec]
    split
    · rename_i heq
      rw [heq] at he
      rwa [Machine.env_print]
    · rename_i heq
      rwa [heq] at he
  | .var name none, m, i, h, _ => by
    rw [Stmt.exec]
    exact Machine.binds_declare h name .nil
  | .var name (some initializer), m, i, h, hs => by
    have he : (m.eval initializer).2.env.Binds i x v := initializer.binds_eval h hs
    rw [Stmt.exec]
    split
    · rename_i heq
      rw [heq] at he
      exact Machine.binds_declare he name _
    · rename_i heq
      rwa [heq] at he
  | .block body, m, i, h, hs => by
    have hbody : (Stmt.execAll body m.enter).2.env.Binds (i + 1) x v :=
      Stmt.binds_execAll body h.push fun hx => (hs hx).push
    rw [Stmt.exec]
    exact hbody.pop

theorem Stmt.binds_execAll : ∀ (body : List Stmt) {m : Machine} {i : Nat}, m.env.Binds i x v →
    (x ∈ Stmt.listOpenAssigns body → m.env.Shadowed i x) →
      (Stmt.execAll body m).2.env.Binds i x v
  | [], m, i, h, _ => h
  | stmt :: rest, m, i, h, hs => by
    have hstmt := stmt.binds_exec h fun hx => hs (List.mem_append_left _ hx)
    obtain ⟨ns, outer, hn⟩ := Environment.names_eq_cons h.frames_ne_nil
    have hnames := stmt.names_exec hn
    rw [Stmt.execAll]
    split
    · rename_i m' heq
      rw [heq] at hstmt hnames
      refine Stmt.binds_execAll rest hstmt fun hx => ?_
      by_cases hd : stmt.declares = some x
      · -- The declaration has made a nearer binding, and `x` was not bound where it stands.
        have hfresh := Stmt.not_mem_of_exec_ok heq hn hd
        have hi : i ≠ 0 := by
          rintro rfl
          exact hfresh (h.mem_names hn)
        exact ⟨0, by omega, _, by rw [hnames]; rfl, by simp [Stmt.bound, hd]⟩
      · have hopen : x ∈ Stmt.listOpenAssigns (stmt :: rest) :=
          List.mem_append_right _ (List.mem_filter.mpr ⟨hx, by simpa using fun he => hd he.symm⟩)
        exact (hs hopen).of_names hn hnames
    · rename_i heq
      rwa [heq] at hstmt

end

theorem Stmt.completed_prefix (body : List Stmt) (m : Machine) :
    Stmt.completed body m <+: body := by
  induction body generalizing m with
  | nil => exact List.prefix_refl _
  | cons stmt rest ih =>
    rw [Stmt.completed]
    split
    · exact List.cons_prefix_cons.mpr ⟨rfl, ih _⟩
    · exact List.nil_prefix

theorem Stmt.completed_eq_self_iff (body : List Stmt) (m : Machine) :
    (Stmt.execAll body m).1 = .ok () ↔ Stmt.completed body m = body := by
  induction body generalizing m with
  | nil => simp [Stmt.execAll, Stmt.completed]
  | cons stmt rest ih =>
    rw [Stmt.execAll, Stmt.completed]
    rcases stmt.exec m with ⟨result, m'⟩
    cases result with
    | ok _ => simpa using ih m'
    | error e => simp

/-- Running statements keeps every frame, on success and on failure. The names of the outer frames
stay, and the innermost one gets those that the completed statements declare, which come first in
the list; they are all of it exactly if the run succeeds. A value that was bound stays, unless its
binding was the nearest one of the name and the name is assigned where no declaration of it stands
before. Evaluating alone changes no names and writes nothing. -/
theorem execute_effect (statements : List Stmt) (env : Environment) (sink : Sink)
    (h : env.frames ≠ []) :
    let after := (execute statements env sink).env
    let done := Stmt.completed statements (.start env sink)
    after.depth = env.depth ∧ done <+: statements ∧
      ((execute statements env sink).result = .ok () ↔ done = statements) ∧
      (∃ ns outer, env.names = ns :: outer ∧
        after.names = ((done.filterMap Stmt.declares).reverse ++ ns) :: outer) ∧
      (∀ i x v, env.Binds i x v →
        after.Binds i x v ∨ ¬ env.Shadowed i x ∧ x ∈ Stmt.listOpenAssigns statements) ∧
      ∀ (m : Machine) (expr : Expr),
        (m.eval expr).2.env.names = m.env.names ∧ (m.eval expr).2.sink = m.sink := by
  intro after done
  obtain ⟨ns, outer, hn⟩ := Environment.names_eq_cons h
  have hafter : after.names = ((done.filterMap Stmt.declares).reverse ++ ns) :: outer :=
    Stmt.names_execAll statements (m := .start env sink) hn
  refine ⟨?_, Stmt.completed_prefix _ _, Stmt.completed_eq_self_iff _ _, ⟨ns, outer, hn, hafter⟩,
    ?_, fun m expr => ⟨m.names_eval expr, m.sink_eval expr⟩⟩
  · have hlength : after.names.length = env.names.length := by rw [hafter, hn]; rfl
    simpa [Environment.names, Environment.depth] using hlength
  · intro i x v hb
    by_cases hs : x ∈ Stmt.listOpenAssigns statements → env.Shadowed i x
    · exact .inl (Stmt.binds_execAll statements (m := .start env sink) hb hs)
    · obtain ⟨hassigned, hnearest⟩ := Classical.not_imp.mp hs
      exact .inr ⟨hnearest, hassigned⟩

theorem execute_effect_failed_block :
    let name (lexeme : String) : Token := ⟨.identifier, lexeme, none, 1, ⟨0, 1⟩⟩
    let env : Environment := ⟨[[("a", .nil)], [("a", .nil), ("b", .nil)]]⟩
    let statements : List Stmt :=
      [.var (name "c") none,
        .block [.var (name "b") none, .expression (.assign (name "b") (.literal (.bool true))),
          .expression (.assign (name "a") (.variable (name "d")))]]
    let after := (execute statements env .unlimited).env
    env.frames ≠ [] ∧ after.depth = 2 ∧ after.names = [["c", "a"], ["a", "b"]] ∧
      after.Binds 1 "b" .nil ∧ after.Binds 1 "a" .nil := by
  intro name env statements after
  have h : env.frames ≠ [] := List.cons_ne_nil _ _
  obtain ⟨hdepth, -, -, ⟨ns, outer, hn, hafter⟩, hkeeps, -⟩ :=
    execute_effect statements env .unlimited h
  cases hn
  refine ⟨h, hdepth, hafter, ?_, ?_⟩
  · refine (hkeeps 1 "b" .nil ⟨_, rfl, rfl⟩).resolve_right ?_
    rintro ⟨-, hopen⟩
    exact absurd hopen (by decide)
  · refine (hkeeps 1 "a" .nil ⟨_, rfl, rfl⟩).resolve_right ?_
    rintro ⟨hnear, -⟩
    exact hnear ⟨0, by decide, ["a"], rfl, by decide⟩

end Treewalk
