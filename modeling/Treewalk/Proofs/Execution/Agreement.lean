import Treewalk.Proofs.Execution.Redeclaration
import Treewalk.Proofs.Execution.Renaming

/-! The variables that a run depends on. Two environments may differ in the number of their frames, in
where a name is bound and in all that the statements do not use: as long as the names in use have the
same values, and the innermost frames bind the same of the names to be declared, the two runs cannot
be told apart. -/

namespace Treewalk

mutual

/-- The names that a statement reads or assigns. -/
def Stmt.uses : Stmt → List String
  | .expression expr => expr.mentions
  | .print _ expr => expr.mentions
  | .var _ none => []
  | .var _ (some initializer) => initializer.mentions
  | .block body => Stmt.listUses body

def Stmt.listUses : List Stmt → List String
  | [] => []
  | stmt :: rest => stmt.uses ++ Stmt.listUses rest

end

section Environments

variable {env env' : Environment} {x y : String} {v w : Value}

theorem Environment.get_cons (frame : Frame) (frames : List Frame) (x : String) :
    (⟨frame :: frames⟩ : Environment).get x =
      match frame.lookup x with
      | some v => .ok v
      | none => (⟨frames⟩ : Environment).get x := by
  rw [Environment.get, List.findSome?_cons]
  cases frame.lookup x <;> rfl

theorem Frame.exists_lookup {frame : Frame} (h : x ∈ frame.map Prod.fst) :
    ∃ v, frame.lookup x = some v :=
  Option.ne_none_iff_exists'.mp (mt Frame.lookup_eq_none_iff.mp (not_not_intro h))

theorem Frame.lookup_assign?_self {frame frame' : Frame}
    (h : Frame.assign? y w frame = some frame') : frame'.lookup y = some w := by
  induction frame generalizing frame' with
  | nil => cases h
  | cons binding rest ih =>
    obtain ⟨n, old⟩ := binding
    unfold Frame.assign? at h
    split at h
    · rename_i hn
      cases h
      simp [hn]
    · rename_i hn
      obtain ⟨rest', hrest, rfl⟩ := Option.map_eq_some_iff.mp h
      have hy : (y == n) = false := by simpa using Ne.symm hn
      rw [List.lookup_cons, hy]
      exact ih hrest

theorem get_assignNearest? {frames frames' : List Frame}
    (h : assignNearest? y w frames = some frames') (x : String) :
    (⟨frames'⟩ : Environment).get x = if x = y then .ok w else (⟨frames⟩ : Environment).get x := by
  induction frames generalizing frames' with
  | nil => cases h
  | cons frame rest ih =>
    unfold assignNearest? at h
    split at h
    · rename_i frame' hframe
      cases h
      rw [Environment.get_cons, Environment.get_cons]
      by_cases hx : x = y
      · rw [hx, Frame.lookup_assign?_self hframe, if_pos rfl]
      · rw [Frame.lookup_assign? hframe hx, if_neg hx]
    · rename_i hframe
      obtain ⟨rest', hrest, rfl⟩ := Option.map_eq_some_iff.mp h
      rw [Environment.get_cons, Environment.get_cons, ih hrest]
      by_cases hx : x = y
      · rw [hx, Frame.lookup_eq_none_iff.mpr (Frame.not_mem_of_assign? hframe), if_pos rfl]
      · rw [if_neg hx, if_neg hx]

/-- Behind an assignment the name has the new value, and every other name the one it had. -/
theorem Environment.get_assign (h : env.assign y w = .ok env') (x : String) :
    env'.get x = if x = y then .ok w else env.get x := by
  unfold Environment.assign at h
  split at h
  · rename_i frames hframes
    cases h
    exact get_assignNearest? hframes x
  · cases h

theorem Environment.get_eq_error_iff {e : EnvironmentError} :
    env.get x = .error e ↔
      e = .undefined x ∧ ∀ frame ∈ env.frames, x ∉ frame.map Prod.fst := by
  have hnone : env.frames.findSome? (·.lookup x) = none ↔
      ∀ frame ∈ env.frames, x ∉ frame.map Prod.fst := by
    simp only [List.findSome?_eq_none_iff, Frame.lookup_eq_none_iff]
  rw [← hnone, Environment.get]
  cases env.frames.findSome? (·.lookup x) with
  | none => simp [eq_comm]
  | some v => simp

/-- A name can be assigned exactly if it can be read, and otherwise both fail in the same way. -/
theorem Environment.assign_eq_error_iff {e : EnvironmentError} :
    env.assign x v = .error e ↔ env.get x = .error e := by
  rw [Environment.get_eq_error_iff, ← assignNearest?_eq_none_iff (v := v), Environment.assign]
  cases assignNearest? x v env.frames with
  | none => simp [eq_comm]
  | some frames => simp

end Environments

section Frames

variable {declared names : List String} {scopes : List (List String)}
  {frames frames' : List Frame} {x : String} {v : Value}

/-- The frames of two runs of the same statements. Both have opened the same scopes, one for each entry
but the last of the list, and these bind the same names to the same values. An entry lists names that
have the same values in both when its scope is the innermost. Of the names to be declared, the
innermost frames at the start bind the same. -/
inductive Agree (declared : List String) : List (List String) → List Frame → List Frame → Prop where
  | outer {names : List String} {frame frame' : Frame} {rest rest' : List Frame}
      (hbound : ∀ x ∈ declared, x ∈ frame'.map Prod.fst ↔ x ∈ frame.map Prod.fst)
      (hget : ∀ x ∈ names, (⟨frame' :: rest'⟩ : Environment).get x =
        (⟨frame :: rest⟩ : Environment).get x) :
      Agree declared [names] (frame :: rest) (frame' :: rest')
  | inner {names names' : List String} {scopes : List (List String)} {frame : Frame}
      {frames frames' : List Frame} (hnames : ∀ x ∈ names', x ∈ frame.map Prod.fst ∨ x ∈ names)
      (h : Agree declared (names :: scopes) frames frames') :
      Agree declared (names' :: names :: scopes) (frame :: frames) (frame :: frames')

theorem Agree.ne_nil (h : Agree declared scopes frames frames') : frames ≠ [] ∧ frames' ≠ [] := by
  cases h <;> simp

theorem Agree.get (h : Agree declared (names :: scopes) frames frames') (hx : x ∈ names) :
    (⟨frames'⟩ : Environment).get x = (⟨frames⟩ : Environment).get x := by
  generalize hs : names :: scopes = all at h
  induction h generalizing names scopes with
  | outer _ hget =>
    cases hs
    exact hget x hx
  | @inner _ _ _ frame _ _ hnames _ ih =>
    cases hs
    rw [Environment.get_cons, Environment.get_cons]
    cases hl : frame.lookup x with
    | some _ => rfl
    | none => exact ih ((hnames x hx).resolve_left (Frame.lookup_eq_none_iff.mp hl)) rfl

theorem Environment.assign_cons (frame : Frame) (frames : List Frame) (x : String) (v : Value) :
    (⟨frame :: frames⟩ : Environment).assign x v =
      match Frame.assign? x v frame with
      | some frame => .ok ⟨frame :: frames⟩
      | none => ((⟨frames⟩ : Environment).assign x v).map fun env => ⟨frame :: env.frames⟩ := by
  rw [Environment.assign, assignNearest?]
  cases Frame.assign? x v frame with
  | some frame => rfl
  | none =>
    rw [Environment.assign]
    cases assignNearest? x v frames <;> rfl

/-- The assignments may change frames that lie at different depths. -/
theorem Agree.assign (h : Agree declared (names :: scopes) frames frames') (hx : x ∈ names)
    (v : Value) :
    (∃ e, (⟨frames⟩ : Environment).assign x v = .error e ∧
        (⟨frames'⟩ : Environment).assign x v = .error e) ∨
      ∃ env env', (⟨frames⟩ : Environment).assign x v = .ok env ∧
        (⟨frames'⟩ : Environment).assign x v = .ok env' ∧
        Agree declared (names :: scopes) env.frames env'.frames := by
  generalize hs : names :: scopes = all at h
  induction h generalizing names scopes with
  | @outer _ frame frame' rest rest' hbound hget =>
    cases hs
    have hsame := hget x hx
    cases ha : (⟨frame :: rest⟩ : Environment).assign x v with
    | error e =>
      rw [Environment.assign_eq_error_iff, ← hsame, ← Environment.assign_eq_error_iff (v := v)] at ha
      exact .inl ⟨e, rfl, ha⟩
    | ok env =>
      cases ha' : (⟨frame' :: rest'⟩ : Environment).assign x v with
      | error e =>
        rw [Environment.assign_eq_error_iff, hsame, ← Environment.assign_eq_error_iff (v := v),
          ha] at ha'
        cases ha'
      | ok env' =>
        have hnames : env.names = _ :: _ := Environment.names_assign ha
        have hnames' : env'.names = _ :: _ := Environment.names_assign ha'
        obtain ⟨first, others, hframes, hfirst, -⟩ := List.map_eq_cons_iff.mp hnames
        obtain ⟨first', others', hframes', hfirst', -⟩ := List.map_eq_cons_iff.mp hnames'
        refine .inr ⟨env, env', rfl, rfl, ?_⟩
        obtain ⟨envFrames⟩ := env
        obtain ⟨envFrames'⟩ := env'
        cases hframes
        cases hframes'
        refine .outer (by rwa [hfirst, hfirst']) fun z hz => ?_
        rw [Environment.get_assign ha, Environment.get_assign ha', hget z hz]
  | @inner _ _ _ frame frames frames' hnames h ih =>
    cases hs
    rw [Environment.assign_cons, Environment.assign_cons]
    cases hf : Frame.assign? x v frame with
    | some frame₁ =>
      have hfst := Frame.map_fst_assign? hf
      exact .inr ⟨_, _, rfl, rfl, .inner (by rwa [hfst]) h⟩
    | none =>
      rcases ih ((hnames x hx).resolve_left (Frame.not_mem_of_assign? hf)) rfl with
        ⟨e, he, he'⟩ | ⟨env, env', he, he', hr⟩
      · exact .inl ⟨e, by rw [he]; rfl, by rw [he']; rfl⟩
      · exact .inr ⟨_, _, by rw [he]; rfl, by rw [he']; rfl, .inner hnames hr⟩

/-- A name that is declared has the same value from then on. In a scope opened since the start any name
may be declared. -/
theorem Agree.define (h : Agree declared (names :: scopes) frames frames')
    (hx : scopes = [] → x ∈ declared) (v : Value) :
    (∃ e, (⟨frames⟩ : Environment).define x v = .error e ∧
        (⟨frames'⟩ : Environment).define x v = .error e) ∨
      ∃ env env', (⟨frames⟩ : Environment).define x v = .ok env ∧
        (⟨frames'⟩ : Environment).define x v = .ok env' ∧
        Agree declared ((x :: names) :: scopes) env.frames env'.frames := by
  cases h with
  | @outer _ frame frame' rest rest' hbound hget =>
    have hiff := hbound x (hx rfl)
    rw [Environment.define_cons, Environment.define_cons]
    by_cases hmem : x ∈ frame.map Prod.fst
    · obtain ⟨v, hv⟩ := Frame.exists_lookup hmem
      obtain ⟨v', hv'⟩ := Frame.exists_lookup (hiff.mpr hmem)
      rw [hv, hv']
      exact .inl ⟨_, rfl, rfl⟩
    · have hmem' := mt hiff.mp hmem
      rw [Frame.lookup_eq_none_iff.mpr hmem, Frame.lookup_eq_none_iff.mpr hmem']
      refine .inr ⟨_, _, rfl, rfl, .outer ?_ ?_⟩
      · intro z hz
        rw [List.map_cons, List.map_cons, List.mem_cons, List.mem_cons, hbound z hz]
      · intro z hz
        by_cases hzx : z = x
        · simp [Environment.get_cons, hzx]
        · have hbeq : (z == x) = false := by simpa using hzx
          have hget := hget z ((List.mem_cons.mp hz).resolve_left hzx)
          rw [Environment.get_cons, Environment.get_cons] at hget ⊢
          simpa only [List.lookup_cons, hbeq] using hget
  | @inner _ _ _ frame frames frames' hnames h =>
    rw [Environment.define_cons, Environment.define_cons]
    cases frame.lookup x with
    | some _ => exact .inl ⟨_, rfl, rfl⟩
    | none =>
      refine .inr ⟨_, _, rfl, rfl, .inner ?_ h⟩
      intro z hz
      rw [List.map_cons, List.mem_cons]
      rcases List.mem_cons.mp hz with hzx | hz
      · exact .inl (.inl hzx)
      · exact (hnames z hz).imp_left .inr

theorem Agree.push (h : Agree declared (names :: scopes) frames frames') :
    Agree declared (names :: names :: scopes) ([] :: frames) ([] :: frames') :=
  .inner (fun _ hx => .inr hx) h

theorem Agree.pop {names' : List String} {env env' : Environment}
    (h : Agree declared (names' :: names :: scopes) env.frames env'.frames) :
    Agree declared (names :: scopes) env.pop.frames env'.pop.frames := by
  obtain ⟨frames⟩ := env
  obtain ⟨frames'⟩ := env'
  cases h with
  | inner _ h =>
    obtain ⟨hne, hne'⟩ := h.ne_nil
    obtain ⟨f, fs, rfl⟩ := List.exists_cons_of_ne_nil hne
    obtain ⟨f', fs', rfl⟩ := List.exists_cons_of_ne_nil hne'
    exact h

theorem Expr.eval_agree (expr : Expr) {env env' : Environment}
    (h : Agree declared (names :: scopes) env.frames env'.frames)
    (hx : ∀ x ∈ expr.mentions, x ∈ names) :
    ∃ after, expr.eval env' = ((expr.eval env).1, after) ∧
      Agree declared (names :: scopes) (expr.eval env).2.frames after.frames := by
  induction expr generalizing env env' with
  | literal value => exact ⟨env', rfl, h⟩
  | grouping inner ih => exact ih h hx
  | unary op token operand ih =>
    obtain ⟨after, heval, hframes⟩ := ih h hx
    rw [Expr.eval, Expr.eval, heval]
    rcases ho : operand.eval env with ⟨result, env₁⟩
    rw [ho] at hframes
    cases result <;> exact ⟨after, rfl, hframes⟩
  | binary op token left right ihl ihr =>
    rw [Expr.mentions, List.forall_mem_append] at hx
    obtain ⟨after, heval, hframes⟩ := ihl h hx.1
    rw [Expr.eval, Expr.eval, heval]
    rcases hl : left.eval env with ⟨result, env₁⟩
    rw [hl] at hframes
    cases result with
    | error e => exact ⟨after, rfl, hframes⟩
    | ok value =>
      obtain ⟨after₂, heval₂, hframes₂⟩ := ihr hframes hx.2
      dsimp only at heval₂ hframes₂ ⊢
      rw [heval₂]
      rcases hr : right.eval env₁ with ⟨result₂, env₂⟩
      rw [hr] at hframes₂
      cases result₂ <;> exact ⟨after₂, rfl, hframes₂⟩
  | «variable» name =>
    have hget : env'.get name.lexeme = env.get name.lexeme := h.get (hx _ List.mem_cons_self)
    exact ⟨env', by rw [Expr.eval, Expr.eval, hget], h⟩
  | assign name value ih =>
    rw [Expr.mentions, List.forall_mem_cons] at hx
    obtain ⟨after, heval, hframes⟩ := ih h hx.2
    rw [Expr.eval, Expr.eval, heval]
    rcases hv : value.eval env with ⟨result, env₁⟩
    rw [hv] at hframes
    cases result with
    | error e => exact ⟨after, rfl, hframes⟩
    | ok v =>
      dsimp only at hframes ⊢
      rcases hframes.assign hx.1 v with ⟨e, he, he'⟩ | ⟨env₂, env₂', he, he', hr⟩
      · rw [he, he']
        exact ⟨after, rfl, hframes⟩
      · rw [he, he']
        exact ⟨env₂', rfl, hr⟩

end Frames

section Machines

variable {declared names : List String} {scopes : List (List String)} {m m' : Machine}

/-- Two machines with frames that agree and the same output. -/
structure Machine.Agree (declared : List String) (scopes : List (List String)) (m m' : Machine) :
    Prop where
  frames : Treewalk.Agree declared scopes m.env.frames m'.env.frames
  sink : m'.sink = m.sink

/-- Both runs end alike, and have the same values for `names` afterwards. -/
structure EndsAgreed {α : Type} (declared names : List String) (scopes : List (List String))
    (a b : Except RuntimeError α × Machine) : Prop where
  result : b.1 = a.1
  machine : a.2.Agree declared (names :: scopes) b.2

theorem EndsAgreed.cases {α : Type} {a b : Except RuntimeError α × Machine}
    (h : EndsAgreed declared names scopes a b) :
    (∃ r m m', a = (.ok r, m) ∧ b = (.ok r, m') ∧ m.Agree declared (names :: scopes) m') ∨
      ∃ e m m', a = (.error e, m) ∧ b = (.error e, m') ∧
        m.Agree declared (names :: scopes) m' := by
  obtain ⟨result, m⟩ := a
  obtain ⟨result', m'⟩ := b
  obtain ⟨hresult, hm⟩ := h
  cases hresult
  cases result with
  | ok r => exact .inl ⟨r, m, m', rfl, rfl, hm⟩
  | error e => exact .inr ⟨e, m, m', rfl, rfl, hm⟩

theorem Machine.Agree.eval (h : m.Agree declared (names :: scopes) m') {expr : Expr}
    (hx : ∀ x ∈ expr.mentions, x ∈ names) :
    EndsAgreed declared names scopes (m.eval expr) (m'.eval expr) := by
  obtain ⟨after, heval, hframes⟩ := expr.eval_agree h.frames hx
  rw [Machine.eval, Machine.eval, heval]
  exact ⟨rfl, hframes, h.sink⟩

theorem Machine.Agree.print (h : m.Agree declared (names :: scopes) m') (keyword : Token)
    (line : String) :
    EndsAgreed declared names scopes (m.print keyword line) (m'.print keyword line) := by
  rw [Machine.print, Machine.print, h.sink]
  rcases m.sink.writeLine line with ⟨fits, sink⟩
  cases fits <;> exact ⟨rfl, h.frames, rfl⟩

theorem Machine.Agree.declare (h : m.Agree declared (names :: scopes) m') {name : Token}
    (hx : scopes = [] → name.lexeme ∈ declared) (initializer : Option Expr) (value : Value) :
    EndsAgreed declared ((Stmt.var name initializer).bound (m.declare name value).1 ++ names) scopes
      (m.declare name value) (m'.declare name value) := by
  rw [Machine.declare, Machine.declare]
  rcases h.frames.define hx value with ⟨e, he, he'⟩ | ⟨env₁, env₁', he, he', hr⟩
  · rw [he, he']
    exact ⟨rfl, h⟩
  · rw [he, he']
    exact ⟨rfl, hr, h.sink⟩

theorem Machine.Agree.enter (h : m.Agree declared (names :: scopes) m') :
    m.enter.Agree declared (names :: names :: scopes) m'.enter :=
  ⟨h.frames.push, h.sink⟩

theorem Machine.Agree.leave {names' : List String}
    (h : m.Agree declared (names' :: names :: scopes) m') :
    m.leave.Agree declared (names :: scopes) m'.leave :=
  ⟨h.frames.pop, h.sink⟩

mutual

theorem Stmt.endsAgreed_exec : ∀ (stmt : Stmt) {m m' : Machine} {names : List String}
    {scopes : List (List String)}, m.Agree declared (names :: scopes) m' →
      (∀ x ∈ stmt.uses, x ∈ names) → (scopes = [] → ∀ x ∈ stmt.declares, x ∈ declared) →
        EndsAgreed declared (stmt.bound (stmt.exec m).1 ++ names) scopes (stmt.exec m) (stmt.exec m')
  | .expression expr, m, m', names, scopes, h, hx, _ => by
    rw [Stmt.bound_of_declares_eq_none rfl, Stmt.exec, Stmt.exec]
    obtain ⟨value, m₁, m₁', hm, hm', h₁⟩ | ⟨e, m₁, m₁', hm, hm', h₁⟩ := (h.eval hx).cases
    · rw [hm, hm']
      exact ⟨rfl, h₁⟩
    · rw [hm, hm']
      exact ⟨rfl, h₁⟩
  | .print keyword expr, m, m', names, scopes, h, hx, _ => by
    rw [Stmt.bound_of_declares_eq_none rfl, Stmt.exec, Stmt.exec]
    obtain ⟨value, m₁, m₁', hm, hm', h₁⟩ | ⟨e, m₁, m₁', hm, hm', h₁⟩ := (h.eval hx).cases
    · rw [hm, hm']
      exact h₁.print keyword value.text
    · rw [hm, hm']
      exact ⟨rfl, h₁⟩
  | .var name none, m, m', names, scopes, h, _, hd => by
    rw [Stmt.exec, Stmt.exec]
    exact h.declare (fun hs => hd hs _ rfl) none .nil
  | .var name (some initializer), m, m', names, scopes, h, hx, hd => by
    rw [Stmt.exec, Stmt.exec]
    obtain ⟨value, m₁, m₁', hm, hm', h₁⟩ | ⟨e, m₁, m₁', hm, hm', h₁⟩ := (h.eval hx).cases
    · rw [hm, hm']
      exact h₁.declare (fun hs => hd hs _ rfl) _ value
    · rw [hm, hm']
      exact ⟨rfl, h₁⟩
  | .block body, m, m', names, scopes, h, hx, _ => by
    obtain ⟨-, hresult, hmachine⟩ :=
      Stmt.endsAgreed_execAll body h.enter hx (fun hs => nomatch hs)
    rw [Stmt.bound_of_declares_eq_none rfl, Stmt.exec, Stmt.exec]
    exact ⟨hresult, hmachine.leave⟩

theorem Stmt.endsAgreed_execAll : ∀ (body : List Stmt) {m m' : Machine} {names : List String}
    {scopes : List (List String)}, m.Agree declared (names :: scopes) m' →
      (∀ x ∈ Stmt.listUses body, x ∈ names) →
      (scopes = [] → ∀ x ∈ body.filterMap Stmt.declares, x ∈ declared) →
        Stmt.completed body m' = Stmt.completed body m ∧
          EndsAgreed declared (((Stmt.completed body m).filterMap Stmt.declares).reverse ++ names)
            scopes (Stmt.execAll body m) (Stmt.execAll body m')
  | [], m, m', names, scopes, h, _, _ => ⟨rfl, rfl, h⟩
  | stmt :: rest, m, m', names, scopes, h, hx, hd => by
    rw [Stmt.listUses, List.forall_mem_append] at hx
    have hfirst : scopes = [] → ∀ x ∈ stmt.declares, x ∈ declared := fun hs x hmem =>
      hd hs x (List.mem_filterMap.mpr ⟨stmt, List.mem_cons_self, hmem⟩)
    have hothers : scopes = [] → ∀ x ∈ rest.filterMap Stmt.declares, x ∈ declared :=
      fun hs x hmem => hd hs x ((List.sublist_cons_self stmt rest).filterMap _ |>.subset hmem)
    have hstmt := stmt.endsAgreed_exec h hx.1 hfirst
    rw [Stmt.execAll, Stmt.execAll, Stmt.completed, Stmt.completed]
    obtain ⟨_, m₁, m₁', hm, hm', h₁⟩ | ⟨e, m₁, m₁', hm, hm', h₁⟩ := hstmt.cases
    · rw [hm, Stmt.bound] at h₁
      rw [hm, hm']
      obtain ⟨hcompleted, hends⟩ := Stmt.endsAgreed_execAll rest h₁
        (fun x hmem => List.mem_append_right _ (hx.2 x hmem)) hothers
      refine ⟨congrArg (stmt :: ·) hcompleted, ?_⟩
      rwa [reverse_declares_cons]
    · rw [hm] at h₁
      rw [hm, hm']
      exact ⟨rfl, rfl, h₁⟩

end

end Machines

/-- A run depends only on the names that it uses and on which of the names to be declared the innermost
frame binds already. In two environments that agree on these, however many frames they have and
wherever they bind a name, statements write the same bytes and have the same result, get equally far,
and leave the same values in all names that they use or have declared. -/
theorem execute_of_agreement (statements : List Stmt) (env env' : Environment) (sink : Sink)
    (hframes : env.frames ≠ []) (hframes' : env'.frames ≠ [])
    (hget : ∀ x ∈ Stmt.listUses statements, env'.get x = env.get x)
    (hbound : ∀ x ∈ statements.filterMap Stmt.declares,
      (env'.BindsInnermost x ↔ env.BindsInnermost x)) :
    let run := execute statements env sink
    let run' := execute statements env' sink
    let done := Stmt.completed statements (.start env sink)
    run'.sink = run.sink ∧ run'.result = run.result ∧
      Stmt.completed statements (.start env' sink) = done ∧
      (∀ x ∈ Stmt.listUses statements, run'.env.get x = run.env.get x) ∧
      ∀ x ∈ done.filterMap Stmt.declares, run'.env.get x = run.env.get x := by
  intro run run' done
  have hstart : (Machine.start env sink).Agree (statements.filterMap Stmt.declares)
      [Stmt.listUses statements] (.start env' sink) := by
    obtain ⟨frames⟩ := env
    obtain ⟨frames'⟩ := env'
    obtain ⟨frame, rest, rfl⟩ := List.exists_cons_of_ne_nil hframes
    obtain ⟨frame', rest', rfl⟩ := List.exists_cons_of_ne_nil hframes'
    refine ⟨.outer ?_ hget, rfl⟩
    intro x hx
    exact (Environment.bindsInnermost_iff rfl).symm.trans
      ((hbound x hx).trans (Environment.bindsInnermost_iff rfl))
  obtain ⟨hcompleted, hresult, hmachine⟩ := Stmt.endsAgreed_execAll statements hstart
    (fun _ hx => hx) (fun _ _ hx => hx)
  have hvalues : ∀ x ∈ (done.filterMap Stmt.declares).reverse ++ Stmt.listUses statements,
      run'.env.get x = run.env.get x := fun x hx => hmachine.frames.get hx
  rw [List.forall_mem_append] at hvalues
  exact ⟨hmachine.sink, hresult, hcompleted, hvalues.2,
    fun x hx => hvalues.1 x (List.mem_reverse.mpr hx)⟩

/-- `var b = a; { var a; a = b; } a = nil; print b; var g;` where `a` is bound in the only frame or in
the one below the innermost, and `g` in both innermost frames, with different values. -/
theorem execute_of_agreement_depths :
    let name (lexeme : String) : Token := ⟨.identifier, lexeme, none, 1, ⟨0, 1⟩⟩
    let keyword : Token := ⟨.print, "print", none, 1, ⟨0, 5⟩⟩
    let use (lexeme : String) : Expr := .variable (name lexeme)
    let statements : List Stmt :=
      [.var (name "b") (some (use "a")),
        .block [.var (name "a") none, .expression (.assign (name "a") (use "b"))],
        .expression (.assign (name "a") (.literal .nil)), .print keyword (use "b"),
        .var (name "g") none]
    let env : Environment := ⟨[[("g", .nil)], [("a", .bool true)]]⟩
    let env' : Environment := ⟨[[("a", .bool true), ("g", .bool false)]]⟩
    let run := execute statements env .unlimited
    let run' := execute statements env' .unlimited
    env.frames ≠ [] ∧ env'.frames ≠ [] ∧
      (∀ x ∈ Stmt.listUses statements, env'.get x = env.get x) ∧
      (∀ x ∈ statements.filterMap Stmt.declares,
        (env'.BindsInnermost x ↔ env.BindsInnermost x)) ∧
      run'.sink = run.sink ∧ run'.result = run.result ∧
      run.result = .error ⟨.environment (.alreadyDeclared "g"), name "g"⟩ ∧
      run'.env.get "a" = run.env.get "a" ∧ run'.env.get "b" = run.env.get "b" := by
  intro name keyword use statements env env' run run'
  have hframes : env.frames ≠ [] := List.cons_ne_nil _ _
  have hframes' : env'.frames ≠ [] := List.cons_ne_nil _ _
  have hget : ∀ x ∈ Stmt.listUses statements, env'.get x = env.get x := by decide
  have hbound : ∀ x ∈ statements.filterMap Stmt.declares,
      (env'.BindsInnermost x ↔ env.BindsInnermost x) := by
    simp [statements, Stmt.declares, Environment.BindsInnermost, env, env', name]
  obtain ⟨hsink, hresult, -, huses, hdeclared⟩ :=
    execute_of_agreement statements env env' .unlimited hframes hframes' hget hbound
  exact ⟨hframes, hframes', hget, hbound, hsink, hresult, by decide, huses "a" (by decide),
    hdeclared "b" (by decide)⟩

end Treewalk
