import Treewalk.Proofs.Execution.Agreement

/-! Environments over whole histories of operations. The global frame is always there, and what
fails changes nothing. Operations between a push and the pop that matches it leave no trace but the
values that they assign past the frames they have opened. -/

namespace Treewalk

inductive Operation where
  | push
  | pop
  | define (name : String) (value : Value)
  | assign (name : String) (value : Value)
  | get (name : String)

/-- The number of open scopes behind an operation, from the number before it. Where none is open,
none can be closed. -/
def Operation.scopes : Nat → Operation → Option Nat
  | n, .push => some (n + 1)
  | 0, .pop => none
  | n + 1, .pop => some n
  | n, _ => some n

/-- The operations close what they open, and nothing else. -/
def Operation.Balanced (operations : List Operation) : Prop :=
  operations.foldlM Operation.scopes 0 = some 0

def Environment.adopt (env : Environment) :
    Except EnvironmentError Environment → Except EnvironmentError (Option Value) × Environment
  | .ok changed => (.ok none, changed)
  | .error e => (.error e, env)

/-- Carries out an operation. Only reading gives a value. -/
def Environment.perform (env : Environment) :
    Operation → Except EnvironmentError (Option Value) × Environment
  | .push => (.ok none, env.push)
  | .pop => (.ok none, env.pop)
  | .define name value => env.adopt (env.define name value)
  | .assign name value => env.adopt (env.assign name value)
  | .get name => ((env.get name).map some, env)

def Environment.after (env : Environment) (history : List Operation) : Environment :=
  history.foldl (fun env operation => (env.perform operation).2) env

/-- No frame binds the name, the lowest ones apart, of which there are `base`. -/
def Environment.FreeAbove (env : Environment) (base : Nat) (x : String) : Prop :=
  ∀ ns ∈ env.names.take (env.depth - base), x ∉ ns

instance (env : Environment) (base : Nat) (x : String) : Decidable (env.FreeAbove base x) :=
  inferInstanceAs (Decidable (∀ ns ∈ env.names.take (env.depth - base), x ∉ ns))

/-- The value that an operation assigns to the name with success, while no frame above the lowest
`base` ones binds the name. -/
def Environment.assignedPast? (env : Environment) (base : Nat) (x : String) :
    Operation → Option Value
  | .assign y v => if y = x ∧ (env.assign y v).isOk ∧ env.FreeAbove base x then some v else none
  | _ => none

/-- All values that operations assign to the name in this way, the first one first. -/
def Environment.assignedPast (base : Nat) (x : String) : Environment → List Operation → List Value
  | _, [] => []
  | env, operation :: rest =>
    (env.assignedPast? base x operation).toList ++
      Environment.assignedPast base x (env.perform operation).2 rest

/-- The second environment has the frames of the first with the same names. Bindings keep their
values, except that the nearest one of a name has the last of the values given for the name. -/
structure Environment.Updated (env env' : Environment) (values : String → List Value) : Prop where
  names : env'.names = env.names
  shadowed : ∀ {i : Nat} {x : String} {v : Value}, env.Binds i x v → env.Shadowed i x →
    env'.Binds i x v
  nearest : ∀ {i : Nat} {x : String} {v : Value}, env.Binds i x v → ¬ env.Shadowed i x →
    env'.Binds i x ((values x).getLast?.getD v)

variable {env env' env₁ env₂ outer : Environment} {i n n' : Nat} {x y : String} {v w : Value}

section Failing

theorem Environment.adopt_eq_error_iff {result : Except EnvironmentError Environment}
    {e : EnvironmentError} : (env.adopt result).1 = .error e ↔ result = .error e := by
  cases result <;> simp [Environment.adopt]

theorem Environment.define_eq_error_iff {e : EnvironmentError} :
    env.define x v = .error e ↔ e = .alreadyDeclared x ∧ env.BindsInnermost x := by
  obtain ⟨frames⟩ := env
  cases frames with
  | nil => simp [Environment.define, Environment.BindsInnermost]
  | cons frame rest =>
    have hn : (⟨frame :: rest⟩ : Environment).names = frame.map Prod.fst :: _ := rfl
    rw [Environment.bindsInnermost_iff hn, Environment.define_cons]
    cases hl : frame.lookup x with
    | none => simpa using fun _ => Frame.lookup_eq_none_iff.mp hl
    | some old =>
      have hx : x ∈ frame.map Prod.fst := by
        by_contra hx
        rw [Frame.lookup_eq_none_iff.mpr hx] at hl
        cases hl
      simp [hx, eq_comm]

theorem Environment.forall_names_iff :
    (∀ frame ∈ env.frames, x ∉ frame.map Prod.fst) ↔ ∀ ns ∈ env.names, x ∉ ns := by
  rw [Environment.names, List.forall_mem_map]

theorem Environment.perform_of_error {operation : Operation} {e : EnvironmentError}
    (h : (env.perform operation).1 = .error e) : (env.perform operation).2 = env := by
  cases operation with
  | push => cases h
  | pop => cases h
  | define y w =>
    have hd : env.define y w = .error e := Environment.adopt_eq_error_iff.mp h
    rw [Environment.perform, hd]
    rfl
  | assign y w =>
    have ha : env.assign y w = .error e := Environment.adopt_eq_error_iff.mp h
    rw [Environment.perform, ha]
    rfl
  | get y => rfl

end Failing

section Nearest

theorem Environment.Binds.shadows {j : Nat} (h : env.Binds i x v) (hij : i < j) :
    env.Shadowed j x := by
  obtain ⟨frame, hframe, hx⟩ := h
  obtain ⟨l₁, l₂, rfl, -⟩ := List.lookup_eq_some_iff.mp hx
  exact ⟨i, hij, _, by rw [Environment.names, List.getElem?_map, hframe]; rfl, by simp⟩

theorem Environment.not_shadowed_zero : ¬ env.Shadowed 0 x := by
  rintro ⟨j, hj, -⟩
  omega

theorem Environment.shadowed_succ_iff {frame : Frame} {rest : List Frame} :
    (⟨frame :: rest⟩ : Environment).Shadowed (i + 1) x ↔
      x ∈ frame.map Prod.fst ∨ (⟨rest⟩ : Environment).Shadowed i x := by
  constructor
  · rintro ⟨j, hj, ns, hns, hmem⟩
    cases j with
    | zero =>
      cases hns
      exact .inl hmem
    | succ j => exact .inr ⟨j, by omega, ns, hns, hmem⟩
  · rintro (hmem | ⟨j, hj, ns, hns, hmem⟩)
    · exact ⟨0, by omega, _, rfl, hmem⟩
    · exact ⟨j + 1, by omega, ns, hns, hmem⟩

/-- Reading gives the value of the nearest binding. -/
theorem Environment.get_eq_ok_iff :
    env.get x = .ok v ↔ ∃ i, env.Binds i x v ∧ ¬ env.Shadowed i x := by
  obtain ⟨frames⟩ := env
  induction frames with
  | nil => simp [Environment.get, Environment.Binds]
  | cons frame rest ih =>
    rw [Environment.get_cons]
    cases hl : frame.lookup x with
    | some u =>
      have hfirst : (⟨frame :: rest⟩ : Environment).Binds 0 x u := ⟨frame, rfl, hl⟩
      constructor
      · intro h
        cases h
        exact ⟨0, hfirst, Environment.not_shadowed_zero⟩
      · rintro ⟨i, ⟨frame', hframe, hx⟩, hs⟩
        cases i with
        | zero =>
          cases hframe
          rw [hl] at hx
          cases hx
          rfl
        | succ i => exact absurd (hfirst.shadows i.succ_pos) hs
    | none =>
      have hx : x ∉ frame.map Prod.fst := Frame.lookup_eq_none_iff.mp hl
      rw [ih]
      constructor
      · rintro ⟨i, hb, hs⟩
        exact ⟨i + 1, hb, fun h => (Environment.shadowed_succ_iff.mp h).elim hx hs⟩
      · rintro ⟨i, hb, hs⟩
        cases i with
        | zero =>
          obtain ⟨frame', hframe, hv⟩ := hb
          cases hframe
          rw [hl] at hv
          cases hv
        | succ i => exact ⟨i, hb, fun h => hs (Environment.shadowed_succ_iff.mpr (.inr h))⟩

theorem Environment.Binds.assign_self (h : env.Binds i y v) (hs : ¬ env.Shadowed i y)
    (ha : env.assign y w = .ok env') : env'.Binds i y w := by
  have hget : env'.get y = .ok w := by rw [Environment.get_assign ha, if_pos rfl]
  obtain ⟨j, hj, hnearest⟩ := Environment.get_eq_ok_iff.mp hget
  have hn := Environment.names_assign ha
  -- The names stay where they are, and so does the nearest binding.
  rcases Nat.lt_trichotomy i j with hij | rfl | hji
  · exact absurd ((h.shadows hij).congr hn) hnearest
  · exact hj
  · exact absurd ((hj.shadows hji).congr hn.symm) hs

theorem Environment.Binds.of_define (h : env.define x v = .ok env') : env'.Binds 0 x v := by
  unfold Environment.define at h
  split at h
  · cases h
    exact ⟨_, rfl, by simp⟩
  · split at h
    · cases h
    · cases h
      exact ⟨_, rfl, by simp⟩

end Nearest

section Updates

theorem Environment.Updated.refl (env : Environment) : env.Updated env fun _ => [] :=
  ⟨rfl, fun hb _ => hb, fun hb _ => hb⟩

theorem Environment.Updated.trans {values₁ values₂ : String → List Value}
    (h₁ : env.Updated env₁ values₁) (h₂ : env₁.Updated env₂ values₂) :
    env.Updated env₂ fun x => values₁ x ++ values₂ x where
  names := h₂.names.trans h₁.names
  shadowed hb hs := h₂.shadowed (h₁.shadowed hb hs) (hs.congr h₁.names)
  nearest := by
    intro i x v hb hs
    have hs₁ : ¬ env₁.Shadowed i x := fun hs₁ => hs (hs₁.congr h₁.names.symm)
    rw [List.getLast?_append, Option.getD_or]
    exact h₂.nearest (h₁.nearest hb hs) hs₁

theorem Environment.Updated.depth {values : String → List Value} (h : env.Updated env' values) :
    env'.depth = env.depth := by
  have hlength := congrArg List.length h.names
  simpa [Environment.names, Environment.depth] using hlength

theorem Environment.updated_assign (h : env.assign y w = .ok env') :
    env.Updated env' fun x => if y = x then [w] else [] where
  names := Environment.names_assign h
  shadowed hb hs := hb.assign h fun _ => hs
  nearest := by
    intro i x v hb hs
    by_cases hx : y = x
    · subst hx
      simpa using hb.assign_self hs h
    · simpa [hx] using hb.assign h fun he => absurd he.symm hx

end Updates

section Segments

/-- The frames of the environment are those of another with `n` more on top. -/
def Environment.StandsOn (env outer : Environment) (n : Nat) : Prop :=
  ∃ inner : List Frame, env.frames = inner ++ outer.frames ∧ inner.length = n

theorem Environment.StandsOn.depth_pos (h : env.StandsOn outer (n + 1)) : 0 < env.depth := by
  obtain ⟨inner, hframes, hlength⟩ := h
  rw [Environment.depth, hframes, List.length_append]
  omega

theorem Environment.assign_append (inner : List Frame) (outer : Environment) :
    (⟨inner ++ outer.frames⟩ : Environment).assign y w =
      match assignNearest? y w inner with
      | some inner' => .ok ⟨inner' ++ outer.frames⟩
      | none => (outer.assign y w).map fun outer' => ⟨inner ++ outer'.frames⟩ := by
  induction inner with
  | nil =>
    change outer.assign y w = (outer.assign y w).map fun outer' => outer'
    cases outer.assign y w <;> rfl
  | cons frame rest ih =>
    rw [List.cons_append, Environment.assign_cons, assignNearest?, ih]
    cases Frame.assign? y w frame with
    | some frame' => rfl
    | none =>
      cases assignNearest? y w rest with
      | some rest' => rfl
      | none => cases outer.assign y w <;> rfl

theorem length_assignNearest? {frames frames' : List Frame}
    (h : assignNearest? y w frames = some frames') : frames'.length = frames.length := by
  simpa using congrArg List.length (map_fst_assignNearest? h)

theorem Environment.freeAbove_iff {inner : List Frame}
    (h : env.frames = inner ++ outer.frames) :
    env.FreeAbove outer.depth x ↔ assignNearest? x v inner = none := by
  have htake : env.names.take (env.depth - outer.depth) = inner.map fun f => f.map Prod.fst := by
    simp [Environment.names, Environment.depth, h]
  rw [Environment.FreeAbove, htake, List.forall_mem_map, assignNearest?_eq_none_iff]

theorem Environment.assignedPast?_eq_none {base : Nat}
    (h : ¬ ((env.assign y w).isOk ∧ env.FreeAbove base y)) (x : String) :
    env.assignedPast? base x (.assign y w) = none := by
  refine if_neg ?_
  rintro ⟨rfl, hpast⟩
  exact h hpast

theorem Environment.toList_assignedPast? {base : Nat} (hok : env.assign y w = .ok env')
    (hfree : env.FreeAbove base y) (x : String) :
    (env.assignedPast? base x (.assign y w)).toList = if y = x then [w] else [] := by
  by_cases hx : y = x
  · subst hx
    simp [Environment.assignedPast?, hok, hfree, Except.isOk, Except.toBool]
  · simp [Environment.assignedPast?, hx]

/-- An assignment ends at one of the frames on top, or passes them all; then it fails if the frames
below do not bind the name either, and changes these otherwise. -/
theorem Environment.StandsOn.assign_cases (h : env.StandsOn outer n) (y : String) (w : Value) :
    (∃ env', env.assign y w = .ok env' ∧ ¬ env.FreeAbove outer.depth y ∧ env'.StandsOn outer n) ∨
      (∃ e, env.assign y w = .error e) ∨
      ∃ env' outer', env.assign y w = .ok env' ∧ env.FreeAbove outer.depth y ∧
        outer.assign y w = .ok outer' ∧ env'.StandsOn outer' n := by
  obtain ⟨inner, hframes, hlength⟩ := h
  have hassign := Environment.assign_append (y := y) (w := w) inner outer
  rw [← hframes] at hassign
  rw [Environment.freeAbove_iff (v := w) hframes]
  cases hinner : assignNearest? y w inner with
  | some inner' =>
    rw [hinner] at hassign
    exact .inl ⟨_, hassign, by simp, inner', rfl, (length_assignNearest? hinner).trans hlength⟩
  | none =>
    rw [hinner] at hassign
    cases houter : outer.assign y w with
    | error e =>
      rw [houter] at hassign
      exact .inr (.inl ⟨e, hassign⟩)
    | ok outer' =>
      rw [houter] at hassign
      exact .inr (.inr ⟨_, outer', hassign, rfl, rfl, inner, rfl, hlength⟩)

theorem Environment.StandsOn.assign (h : env.StandsOn outer n) (y : String) (w : Value) :
    ∃ outer', (env.perform (.assign y w)).2.StandsOn outer' n ∧
      outer.Updated outer' fun x => (env.assignedPast? outer.depth x (.assign y w)).toList := by
  rw [Environment.perform]
  obtain ⟨env', ha, hfree, hstands⟩ | ⟨e, ha⟩ | ⟨env', outer', ha, hfree, houter, hstands⟩ :=
    h.assign_cases y w
  · have hnot : ¬ ((env.assign y w).isOk ∧ env.FreeAbove outer.depth y) := fun hpast =>
      hfree hpast.2
    rw [ha]
    refine ⟨outer, hstands, ?_⟩
    simpa only [Environment.assignedPast?_eq_none hnot] using .refl outer
  · have hnot : ¬ ((env.assign y w).isOk ∧ env.FreeAbove outer.depth y) := by
      simp [ha, Except.isOk, Except.toBool]
    rw [ha]
    refine ⟨outer, h, ?_⟩
    simpa only [Environment.assignedPast?_eq_none hnot] using .refl outer
  · rw [ha]
    refine ⟨outer', hstands, ?_⟩
    simpa only [Environment.toList_assignedPast? ha hfree] using Environment.updated_assign houter

theorem Environment.StandsOn.define (h : env.StandsOn outer (n + 1)) (y : String) (w : Value) :
    (env.perform (.define y w)).2.StandsOn outer (n + 1) := by
  obtain ⟨inner, hframes, hlength⟩ := h
  obtain ⟨frame, rest, rfl⟩ := List.exists_cons_of_length_eq_add_one hlength
  obtain ⟨frames⟩ := env
  subst hframes
  rw [Environment.perform, List.cons_append, Environment.define_cons]
  cases frame.lookup y with
  | some old => exact ⟨frame :: rest, rfl, hlength⟩
  | none => exact ⟨((y, w) :: frame) :: rest, rfl, hlength⟩

/-- An operation within the open scopes keeps the frames below them, with the value that it assigns
past the scopes. -/
theorem Environment.StandsOn.perform {operation : Operation} (h : env.StandsOn outer (n + 1))
    (hn : operation.scopes n = some n') :
    ∃ outer', (env.perform operation).2.StandsOn outer' (n' + 1) ∧
      outer.Updated outer' fun x => (env.assignedPast? outer.depth x operation).toList := by
  cases operation with
  | push =>
    cases hn
    obtain ⟨inner, hframes, hlength⟩ := h
    exact ⟨outer, ⟨[] :: inner, congrArg ([] :: ·) hframes, congrArg (· + 1) hlength⟩, .refl outer⟩
  | pop =>
    cases n with
    | zero => cases hn
    | succ n =>
      cases hn
      obtain ⟨inner, hframes, hlength⟩ := h
      match inner, hlength with
      | frame :: next :: rest, hlength =>
        refine ⟨outer, ⟨next :: rest, ?_, Nat.succ.inj hlength⟩, .refl outer⟩
        simp [Environment.perform, Environment.pop, hframes]
  | define y w =>
    cases hn
    exact ⟨outer, h.define y w, .refl outer⟩
  | assign y w =>
    cases hn
    exact h.assign y w
  | get y =>
    cases hn
    exact ⟨outer, h, .refl outer⟩

theorem Environment.StandsOn.after {operations : List Operation} (h : env.StandsOn outer (n + 1))
    (hn : operations.foldlM Operation.scopes n = some n') :
    ∃ outer', (env.after operations).StandsOn outer' (n' + 1) ∧
      outer.Updated outer' fun x => env.assignedPast outer.depth x operations := by
  -- Each step may change the values of the frames below, never their number.
  induction operations generalizing env outer n with
  | nil =>
    cases hn
    exact ⟨outer, h, .refl outer⟩
  | cons operation rest ih =>
    rw [List.foldlM_cons, Option.bind_eq_bind, Option.bind_eq_some_iff] at hn
    obtain ⟨m, hm, hrest⟩ := hn
    obtain ⟨outer₁, hstands, hstep⟩ := h.perform hm
    obtain ⟨outer₂, hstands', hsteps⟩ := ih hstands hrest
    rw [hstep.depth] at hsteps
    exact ⟨outer₂, hstands', hstep.trans hsteps⟩

theorem Environment.StandsOn.pop_eq (h : env.StandsOn outer 1) (ho : 0 < outer.depth) :
    env.pop = outer := by
  obtain ⟨inner, hframes, hlength⟩ := h
  obtain ⟨frame, rfl⟩ := List.length_eq_one_iff.mp hlength
  obtain ⟨next, rest, hnext⟩ := List.exists_cons_of_length_pos ho
  rw [Environment.pop, hframes, hnext]
  exact congrArg Environment.mk hnext.symm

theorem Environment.updated_segment {body : List Operation} (h : 0 < env.depth)
    (hbody : Operation.Balanced body) :
    env.Updated (env.after (.push :: body ++ [.pop])) fun x =>
      env.push.assignedPast env.depth x body := by
  -- The frame that the push opens is on top of the others before the body and behind it.
  have hpush : env.push.StandsOn env (0 + 1) := ⟨[[]], rfl, rfl⟩
  obtain ⟨outer, hstands, hupdated⟩ := hpush.after hbody
  have hafter : env.after (.push :: body ++ [.pop]) = (env.push.after body).pop :=
    List.foldl_append ..
  have houter : 0 < outer.depth := by rwa [hupdated.depth]
  rwa [hafter, hstands.pop_eq houter]

end Segments

theorem Environment.depth_perform_pos (h : 0 < env.depth) (operation : Operation) :
    0 < (env.perform operation).2.depth := by
  obtain ⟨n, hn⟩ := Nat.exists_eq_add_one_of_ne_zero h.ne'
  -- With nothing below, the frames on top are all there are.
  have hstands : env.StandsOn ⟨[]⟩ (n + 1) := ⟨env.frames, (List.append_nil _).symm, hn⟩
  cases operation with
  | push => exact Nat.succ_pos _
  | pop => exact Environment.depth_pop_pos h
  | define y w => exact (hstands.define y w).depth_pos
  | assign y w =>
    obtain ⟨outer', hassigned, -⟩ := hstands.assign y w
    exact hassigned.depth_pos
  | get y => exact h

theorem Environment.depth_after_pos (h : 0 < env.depth) (history : List Operation) :
    0 < (env.after history).depth := by
  induction history generalizing env with
  | nil => exact h
  | cons operation rest ih => exact ih (Environment.depth_perform_pos h operation)

/-- Whatever operations have been carried out, there is a frame. Declaring fails exactly for a name
of the innermost frame, and binds any other name there. Assigning and reading fail exactly for a
name of no frame, and reading gives the value of the nearest binding. What fails changes nothing.
Operations between a push and the pop that matches it leave all frames with their names and values,
except that the nearest binding of a name takes the last value assigned to the name while no frame
opened in between bound it. -/
theorem histories_restore_frames (history : List Operation) :
    let env := Environment.initial.after history
    0 < env.depth ∧
      (∀ x v e, (env.perform (.define x v)).1 = .error e ↔
        e = .alreadyDeclared x ∧ env.BindsInnermost x) ∧
      (∀ x v, ¬ env.BindsInnermost x → (env.perform (.define x v)).1 = .ok none ∧
        (env.perform (.define x v)).2.Binds 0 x v) ∧
      (∀ x v e, (env.perform (.assign x v)).1 = .error e ↔
        e = .undefined x ∧ ∀ ns ∈ env.names, x ∉ ns) ∧
      (∀ x e, (env.perform (.get x)).1 = .error e ↔
        e = .undefined x ∧ ∀ ns ∈ env.names, x ∉ ns) ∧
      (∀ x v, (env.perform (.get x)).1 = .ok (some v) ↔
        ∃ i, env.Binds i x v ∧ ¬ env.Shadowed i x) ∧
      (∀ operation e, (env.perform operation).1 = .error e → (env.perform operation).2 = env) ∧
      ∀ body, Operation.Balanced body →
        env.Updated (env.after (.push :: body ++ [.pop])) fun x =>
          env.push.assignedPast env.depth x body := by
  intro env
  have hinitial : 0 < Environment.initial.depth := Nat.one_pos
  have hdepth : 0 < env.depth := Environment.depth_after_pos hinitial history
  have hget : ∀ {x e}, env.get x = .error e ↔ e = .undefined x ∧ ∀ ns ∈ env.names, x ∉ ns := by
    intro x e
    rw [Environment.get_eq_error_iff, Environment.forall_names_iff]
  refine ⟨hdepth, fun x v e => ?_, fun x v hx => ?_, fun x v e => ?_, fun x e => ?_, fun x v => ?_,
    fun operation e h => ?_, fun body hbody => ?_⟩
  · exact Environment.adopt_eq_error_iff.trans Environment.define_eq_error_iff
  · rw [Environment.perform]
    cases hd : env.define x v with
    | error e => exact absurd (Environment.define_eq_error_iff.mp hd).2 hx
    | ok env' => exact ⟨rfl, .of_define hd⟩
  · exact Environment.adopt_eq_error_iff.trans (Environment.assign_eq_error_iff.trans hget)
  · rw [← hget, Environment.perform]
    cases env.get x <;> simp [Except.map]
  · rw [← Environment.get_eq_ok_iff, Environment.perform]
    cases env.get x <;> simp [Except.map]
  · exact Environment.perform_of_error h
  · exact Environment.updated_segment hdepth hbody

theorem histories_restore_frames_shadowed :
    let history : List Operation :=
      [.define "a" .nil, .define "b" .nil, .pop, .push, .define "a" (.bool true)]
    let body : List Operation :=
      [.assign "b" (.bool true), .define "b" .nil, .assign "b" (.bool false), .push,
        .assign "a" (.bool false), .assign "c" .nil, .pop, .get "b"]
    let env := Environment.initial.after history
    let after := env.after (.push :: body ++ [.pop])
    (env.perform (.define "a" .nil)).1 = .error (.alreadyDeclared "a") ∧
      Operation.Balanced body ∧ after.names = [["a"], ["b", "a"]] ∧
      after.Binds 0 "a" (.bool false) ∧ after.Binds 1 "a" .nil ∧
      after.Binds 1 "b" (.bool true) := by
  intro history body env after
  obtain ⟨-, hdefine, -, -, -, -, -, hsegment⟩ := histories_restore_frames history
  have hbody : Operation.Balanced body := rfl
  have hupdated := hsegment body hbody
  have hbound : env.BindsInnermost "a" := ⟨_, .bool true, rfl, List.mem_cons_self⟩
  refine ⟨(hdefine "a" .nil _).mpr ⟨rfl, hbound⟩, hbody, hupdated.names, ?_, ?_, ?_⟩
  · exact hupdated.nearest (v := .bool true) ⟨_, rfl, rfl⟩ Environment.not_shadowed_zero
  · exact hupdated.shadowed ⟨_, rfl, rfl⟩ ⟨0, by decide, ["a"], rfl, by decide⟩
  · refine hupdated.nearest (v := .nil) ⟨_, rfl, rfl⟩ ?_
    rintro ⟨j, hj, ns, hns, hmem⟩
    obtain rfl : j = 0 := by omega
    cases hns
    exact absurd hmem (by decide)

end Treewalk
