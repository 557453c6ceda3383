import Treewalk.Proofs.Execution.Relocation
import Treewalk.Proofs.Execution.Resolution

/-! Renaming a variable of a block. A use belongs to the declaration that stands before it in the same
list of statements or in the nearest one around it, and while a run is at the use, the frame of that
declaration is the nearest one that binds the name. So a declaration and the uses that belong to it may
take another name, if that one does not occur in the block. -/

namespace Treewalk

section Syntax

/-- The token with another name, if it has the name `x`. -/
def Token.rename (x y : String) (t : Token) : Token :=
  if t.lexeme = x then { t with lexeme := y } else t

def Expr.rename (x y : String) : Expr → Expr
  | .literal value => .literal value
  | .grouping inner => .grouping (inner.rename x y)
  | .unary op token operand => .unary op token (operand.rename x y)
  | .binary op token left right => .binary op token (left.rename x y) (right.rename x y)
  | .variable name => .variable (name.rename x y)
  | .assign name value => .assign (name.rename x y) (value.rename x y)

mutual

/-- Renames the uses of `x` that belong to a declaration in front of the statement. The initializer of
another declaration of `x` stands before that declaration. -/
def Stmt.renameUses (x y : String) : Stmt → Stmt
  | .expression expr => .expression (expr.rename x y)
  | .print keyword expr => .print keyword (expr.rename x y)
  | .var name initializer => .var name (initializer.map (Expr.rename x y))
  | .block body => .block (Stmt.listRenameUses x y body)

/-- Behind another declaration of `x` the uses belong to that one. -/
def Stmt.listRenameUses (x y : String) : List Stmt → List Stmt
  | [] => []
  | stmt :: rest =>
    stmt.renameUses x y ::
      if stmt.declares = some x then rest else Stmt.listRenameUses x y rest

end

/-- The names that an expression reads or assigns. -/
def Expr.mentions : Expr → List String
  | .literal _ => []
  | .grouping inner => inner.mentions
  | .unary _ _ operand => operand.mentions
  | .binary _ _ left right => left.mentions ++ right.mentions
  | .variable name => [name.lexeme]
  | .assign name value => name.lexeme :: value.mentions

mutual

/-- The names that a statement reads, assigns or declares. -/
def Stmt.mentions : Stmt → List String
  | .expression expr => expr.mentions
  | .print _ expr => expr.mentions
  | .var name none => [name.lexeme]
  | .var name (some initializer) => name.lexeme :: initializer.mentions
  | .block body => Stmt.listMentions body

def Stmt.listMentions : List Stmt → List String
  | [] => []
  | stmt :: rest => stmt.mentions ++ Stmt.listMentions rest

end

variable {x y : String}

theorem Token.lexeme_rename (x y : String) (t : Token) :
    (t.rename x y).lexeme = if t.lexeme = x then y else t.lexeme := by
  unfold Token.rename
  split <;> rfl

theorem Token.rename_self (x : String) (t : Token) : t.rename x x = t := by
  unfold Token.rename
  split
  · rename_i h
    rw [← h]
  · rfl

theorem Expr.rename_self (x : String) (expr : Expr) : expr.rename x x = expr := by
  induction expr with
  | literal value => rfl
  | grouping inner ih => rw [Expr.rename, ih]
  | unary op token operand ih => rw [Expr.rename, ih]
  | binary op token left right ihl ihr => rw [Expr.rename, ihl, ihr]
  | «variable» name => rw [Expr.rename, Token.rename_self]
  | assign name value ih => rw [Expr.rename, Token.rename_self, ih]

mutual

theorem Stmt.renameUses_self (x : String) : ∀ stmt : Stmt, stmt.renameUses x x = stmt
  | .expression expr => by rw [Stmt.renameUses, Expr.rename_self]
  | .print keyword expr => by rw [Stmt.renameUses, Expr.rename_self]
  | .var name none => rfl
  | .var name (some initializer) => by rw [Stmt.renameUses, Option.map_some, Expr.rename_self]
  | .block body => by rw [Stmt.renameUses, Stmt.listRenameUses_self x body]

theorem Stmt.listRenameUses_self (x : String) : ∀ body : List Stmt,
    Stmt.listRenameUses x x body = body
  | [] => rfl
  | stmt :: rest => by
    rw [Stmt.listRenameUses, Stmt.renameUses_self x stmt, Stmt.listRenameUses_self x rest, ite_self]

end

theorem Stmt.listMentions_append (xs ys : List Stmt) :
    Stmt.listMentions (xs ++ ys) = Stmt.listMentions xs ++ Stmt.listMentions ys := by
  induction xs with
  | nil => rfl
  | cons stmt xs ih =>
    rw [List.cons_append, Stmt.listMentions, Stmt.listMentions, ih, List.append_assoc]

end Syntax

section Frames

variable {x y z w : String} {zs : List String} {v : Value} {frames frames' : List Frame}

def Frame.rename (x y : String) (frame : Frame) : Frame :=
  frame.map fun binding => (if binding.1 = x then y else binding.1, binding.2)

/-- The second frames are the first ones, but that one of them has `y` for `x`. The names at the front
are those that stand for `x` in the second frames: one for that frame itself, and one for each frame
above it, the innermost first. It is `x` again where a frame above binds that. -/
inductive Renamed (x y : String) : List String → List Frame → List Frame → Prop where
  | frame {frame : Frame} {outer : List Frame} (hx : x ∈ frame.map Prod.fst)
      (hy : y ∉ frame.map Prod.fst) (houter : outer ≠ []) :
      Renamed x y [y] (frame :: outer) (frame.rename x y :: outer)
  | under {inner : Frame} {frames frames' : List Frame} {z z' : String} {zs : List String}
      (hy : y ∉ inner.map Prod.fst) (hz : z' = if x ∈ inner.map Prod.fst then x else z)
      (h : Renamed x y (z :: zs) frames frames') :
      Renamed x y (z' :: z :: zs) (inner :: frames) (inner :: frames')

theorem Frame.lookup_rename {frame : Frame} (hy : y ∉ frame.map Prod.fst) (hw : w ≠ y) :
    (frame.rename x y).lookup (if w = x then y else w) = frame.lookup w := by
  induction frame with
  | nil => rfl
  | cons binding rest ih =>
    obtain ⟨n, old⟩ := binding
    rw [List.map_cons, List.mem_cons, not_or] at hy
    have hrest := ih hy.2
    have hsame : ((if w = x then y else w) == if n = x then y else n) = (w == n) := by
      by_cases hwx : w = x <;> by_cases hnx : n = x <;> grind
    rw [Frame.rename] at hrest ⊢
    rw [List.map_cons, List.lookup_cons, List.lookup_cons, hsame, hrest]

theorem Frame.assign?_rename {frame : Frame} (hy : y ∉ frame.map Prod.fst) (hw : w ≠ y) :
    Frame.assign? (if w = x then y else w) v (frame.rename x y) =
      (Frame.assign? w v frame).map (Frame.rename x y) := by
  induction frame with
  | nil => rfl
  | cons binding rest ih =>
    obtain ⟨n, old⟩ := binding
    rw [List.map_cons, List.mem_cons, not_or] at hy
    have hrest := ih hy.2
    have hsame : ((if n = x then y else n) = if w = x then y else w) ↔ n = w := by
      by_cases hwx : w = x <;> by_cases hnx : n = x <;> grind
    rw [Frame.rename] at hrest ⊢
    rw [List.map_cons, Frame.assign?, Frame.assign?, hrest]
    simp only [hsame]
    split
    · rfl
    · cases Frame.assign? w v rest <;> rfl

theorem Frame.rename_of_not_mem {frame : Frame} (hx : x ∉ frame.map Prod.fst) :
    frame.rename x y = frame := by
  induction frame with
  | nil => rfl
  | cons binding rest ih =>
    rw [List.map_cons, List.mem_cons, not_or] at hx
    have hrest := ih hx.2
    rw [Frame.rename] at hrest ⊢
    rw [List.map_cons, hrest, if_neg (Ne.symm hx.1)]

theorem Renamed.standIn (h : Renamed x y (z :: zs) frames frames') : z = y ∨ z = x := by
  generalize hzs : z :: zs = names at h
  induction h generalizing z zs with
  | frame _ _ _ =>
    cases hzs
    exact .inl rfl
  | under hy hz _ ih =>
    cases hzs
    rw [hz]
    split
    · exact .inr rfl
    · exact ih rfl

theorem Renamed.ne_nil (h : Renamed x y zs frames frames') : frames ≠ [] ∧ frames' ≠ [] := by
  cases h <;> simp

theorem Renamed.length_eq (h : Renamed x y zs frames frames') : frames'.length = frames.length := by
  induction h with
  | frame _ _ _ => rfl
  | under _ _ _ ih => rw [List.length_cons, List.length_cons, ih]

/-- A name is found in a frame above under the name it has, or it and what stands for it are both
sought further down. -/
theorem Renamed.inner_cases {inner : Frame} {z' : String} (hy : y ∉ inner.map Prod.fst)
    (hz : z' = if x ∈ inner.map Prod.fst then x else z) (hstand : z = y ∨ z = x) :
    (w ∈ inner.map Prod.fst ∧ (if w = x then z' else w) = w) ∨
      w ∉ inner.map Prod.fst ∧ (if w = x then z' else w) ∉ inner.map Prod.fst ∧
        (if w = x then z' else w) = if w = x then z else w := by
  by_cases hw : w = x
  · subst hw
    simp only [if_true]
    by_cases hx : w ∈ inner.map Prod.fst
    · exact .inl ⟨hx, by rw [hz, if_pos hx]⟩
    · rw [if_neg hx] at hz
      refine .inr ⟨hx, ?_, hz⟩
      rcases hstand with rfl | rfl
      · rwa [hz]
      · rwa [hz]
  · rw [if_neg hw, if_neg hw]
    by_cases hm : w ∈ inner.map Prod.fst
    · exact .inl ⟨hm, rfl⟩
    · exact .inr ⟨hm, hm, rfl⟩

theorem Renamed.lookup (h : Renamed x y (z :: zs) frames frames') (hw : w ≠ y) :
    frames'.findSome? (·.lookup (if w = x then z else w)) = frames.findSome? (·.lookup w) := by
  generalize hzs : z :: zs = names at h
  induction h generalizing z zs with
  | @frame frame outer hx hy houter =>
    cases hzs
    rw [List.findSome?_cons, List.findSome?_cons, Frame.lookup_rename hy hw]
    cases hl : frame.lookup w with
    | some _ => rfl
    | none =>
      have hne : w ≠ x := by
        rintro rfl
        exact Frame.lookup_eq_none_iff.mp hl hx
      rw [if_neg hne]
  | @under inner frames frames' z₁ z' zs₁ hy hz h ih =>
    cases hzs
    rw [List.findSome?_cons, List.findSome?_cons]
    rcases Renamed.inner_cases (w := w) hy hz h.standIn with ⟨hm, he⟩ | ⟨hm, hm', he⟩
    · rw [he]
      cases hl : inner.lookup w with
      | some _ => rfl
      | none => exact absurd hm (Frame.lookup_eq_none_iff.mp hl)
    · rw [Frame.lookup_eq_none_iff.mpr hm, Frame.lookup_eq_none_iff.mpr hm', he]
      exact ih rfl

theorem Renamed.lookup_isSome (h : Renamed x y zs frames frames') :
    ∃ v, frames.findSome? (·.lookup x) = some v := by
  cases hf : frames.findSome? (·.lookup x) with
  | some v => exact ⟨v, rfl⟩
  | none =>
    rw [List.findSome?_eq_none_iff] at hf
    induction h with
    | frame hx _ _ =>
      exact absurd hx (Frame.lookup_eq_none_iff.mp (hf _ List.mem_cons_self))
    | under _ _ _ ih => exact ih fun frame hframe => hf frame (List.mem_cons_of_mem _ hframe)

theorem Renamed.assigned (h : Renamed x y (z :: zs) frames frames') (hw : w ≠ y) (v : Value) :
    (w ≠ x ∧ assignNearest? w v frames = none ∧
        assignNearest? (if w = x then z else w) v frames' = none) ∨
      ∃ gs gs', assignNearest? w v frames = some gs ∧
        assignNearest? (if w = x then z else w) v frames' = some gs' ∧
        Renamed x y (z :: zs) gs gs' := by
  generalize hzs : z :: zs = names at h
  induction h generalizing z zs with
  | @frame frame outer hx hy houter =>
    cases hzs
    rw [assignNearest?, assignNearest?, Frame.assign?_rename hy hw]
    cases hf : Frame.assign? w v frame with
    | some frame₁ =>
      have hnames := Frame.map_fst_assign? hf
      exact .inr ⟨_, _, rfl, rfl, .frame (by rwa [hnames]) (by rwa [hnames]) houter⟩
    | none =>
      have hne : w ≠ x := by
        rintro rfl
        exact Frame.not_mem_of_assign? hf hx
      rw [if_neg hne]
      cases ho : assignNearest? w v outer with
      | none => exact .inl ⟨hne, rfl, rfl⟩
      | some outer₁ =>
        have houter₁ : outer₁ ≠ [] := by
          rintro rfl
          exact houter (List.map_eq_nil_iff.mp (map_fst_assignNearest? ho).symm)
        exact .inr ⟨_, _, rfl, rfl, .frame hx hy houter₁⟩
  | @under inner frames frames' z₁ z' zs₁ hy hz h ih =>
    cases hzs
    rw [assignNearest?, assignNearest?]
    rcases Renamed.inner_cases (w := w) hy hz h.standIn with ⟨hm, he⟩ | ⟨hm, hm', he⟩
    · rw [he]
      cases hf : Frame.assign? w v inner with
      | none => exact absurd hm (Frame.not_mem_of_assign? hf)
      | some inner₁ =>
        have hnames := Frame.map_fst_assign? hf
        exact .inr ⟨_, _, rfl, rfl, .under (by rwa [hnames]) (by rwa [hnames]) h⟩
    · rw [Frame.assign?_eq_none_iff.mpr hm, Frame.assign?_eq_none_iff.mpr hm', he]
      rcases ih rfl with ⟨hne, hn, hn'⟩ | ⟨gs, gs', hg, hg', hr⟩
      · exact .inl ⟨hne, by rw [hn]; rfl, by rw [hn']; rfl⟩
      · exact .inr ⟨inner :: gs, inner :: gs', by rw [hg]; rfl, by rw [hg']; rfl, .under hy hz hr⟩

end Frames

section Environments

variable {x y z : String} {zs : List String} {env env' : Environment} {name : Token}

theorem Renamed.get (h : Renamed x y (z :: zs) env.frames env'.frames) (hname : name.lexeme ≠ y) :
    environmentFaultAt (name.rename x z) (env'.get (name.rename x z).lexeme) =
      environmentFaultAt name (env.get name.lexeme) := by
  rw [Token.lexeme_rename, Environment.get, Environment.get, h.lookup hname]
  cases hf : env.frames.findSome? (·.lookup name.lexeme) with
  | some v => rfl
  | none =>
    have hne : name.lexeme ≠ x := by
      rintro rfl
      obtain ⟨v, hv⟩ := h.lookup_isSome
      rw [hf] at hv
      cases hv
    rw [Token.rename, if_neg hne, if_neg hne]

theorem Renamed.assign (h : Renamed x y (z :: zs) env.frames env'.frames)
    (hname : name.lexeme ≠ y) (v : Value) :
    (∃ e, environmentFaultAt name (env.assign name.lexeme v) = .error e ∧
        environmentFaultAt (name.rename x z) (env'.assign (name.rename x z).lexeme v) = .error e) ∨
      ∃ env₁ env₁', environmentFaultAt name (env.assign name.lexeme v) = .ok env₁ ∧
        environmentFaultAt (name.rename x z) (env'.assign (name.rename x z).lexeme v) = .ok env₁' ∧
        Renamed x y (z :: zs) env₁.frames env₁'.frames := by
  rw [Token.lexeme_rename, Environment.assign, Environment.assign]
  rcases h.assigned hname v with ⟨hne, hn, hn'⟩ | ⟨gs, gs', hg, hg', hr⟩
  · refine .inl ⟨⟨.environment (.undefined name.lexeme), name⟩, by rw [hn]; rfl, ?_⟩
    rw [hn', Token.rename, if_neg hne, if_neg hne]
    rfl
  · exact .inr ⟨⟨gs⟩, ⟨gs'⟩, by rw [hg]; rfl, by rw [hg']; rfl, hr⟩

theorem Environment.define_cons (frame : Frame) (rest : List Frame) (w : String) (v : Value) :
    (⟨frame :: rest⟩ : Environment).define w v =
      match frame.lookup w with
      | some _ => .error (.alreadyDeclared w)
      | none => .ok ⟨((w, v) :: frame) :: rest⟩ := rfl

/-- A declaration of `x` above the renamed frame makes `x` stand for itself. -/
theorem Renamed.define (h : Renamed x y (z :: zs) env.frames env'.frames) {w : String}
    (hw : w ≠ y) (hx : zs = [] → w ≠ x) (v : Value) :
    (∃ e, env.define w v = .error e ∧ env'.define w v = .error e) ∨
      ∃ env₁ env₁', env.define w v = .ok env₁ ∧ env'.define w v = .ok env₁' ∧
        Renamed x y ((if w = x then x else z) :: zs) env₁.frames env₁'.frames := by
  obtain ⟨frames⟩ := env
  obtain ⟨frames'⟩ := env'
  dsimp only at h
  have hfresh : ∀ frame : Frame, y ∉ frame.map Prod.fst → y ∉ ((w, v) :: frame).map Prod.fst := by
    intro frame hy
    rw [List.map_cons, List.mem_cons, not_or]
    exact ⟨hw.symm, hy⟩
  cases h with
  | @frame frame outer hxf hy houter =>
    have hne := hx rfl
    have hlookup : (frame.rename x y).lookup w = frame.lookup w := by
      have hsame := Frame.lookup_rename (x := x) hy hw
      rwa [if_neg hne] at hsame
    rw [Environment.define_cons, Environment.define_cons, hlookup, if_neg hne]
    cases frame.lookup w with
    | some _ => exact .inl ⟨_, rfl, rfl⟩
    | none =>
      have hcons : (w, v) :: frame.rename x y = Frame.rename x y ((w, v) :: frame) := by
        simp [Frame.rename, hne]
      refine .inr ⟨_, _, rfl, rfl, ?_⟩
      rw [hcons]
      exact .frame (List.mem_cons_of_mem _ hxf) (hfresh frame hy) houter
  | @under inner frames frames' z₁ _ zs₁ hy hz h =>
    rw [Environment.define_cons, Environment.define_cons]
    cases inner.lookup w with
    | some _ => exact .inl ⟨_, rfl, rfl⟩
    | none =>
      refine .inr ⟨_, _, rfl, rfl, .under (hfresh inner hy) ?_ h⟩
      simp only [List.map_cons, List.mem_cons, hz]
      by_cases hwx : w = x
      · simp [hwx]
      · have hxw : (x = w) = False := eq_false (Ne.symm hwx)
        simp only [if_neg hwx, hxw, false_or]

theorem Renamed.push (h : Renamed x y (z :: zs) env.frames env'.frames) :
    Renamed x y (z :: z :: zs) env.push.frames env'.push.frames :=
  .under List.not_mem_nil rfl h

theorem Renamed.pop {z' : String} (h : Renamed x y (z' :: z :: zs) env.frames env'.frames) :
    Renamed x y (z :: zs) env.pop.frames env'.pop.frames := by
  obtain ⟨frames⟩ := env
  obtain ⟨frames'⟩ := env'
  cases h with
  | under hy hz h =>
    obtain ⟨hne, hne'⟩ := h.ne_nil
    obtain ⟨f, fs, rfl⟩ := List.exists_cons_of_ne_nil hne
    obtain ⟨f', fs', rfl⟩ := List.exists_cons_of_ne_nil hne'
    exact h

/-- Without the renamed frame the environments are the same. -/
theorem Renamed.pop_eq (h : Renamed x y [z] env.frames env'.frames) : env'.pop = env.pop := by
  obtain ⟨frames⟩ := env
  obtain ⟨frames'⟩ := env'
  cases h with
  | frame _ _ houter =>
    obtain ⟨f, fs, rfl⟩ := List.exists_cons_of_ne_nil houter
    rfl

theorem Expr.eval_rename (expr : Expr) (h : Renamed x y (z :: zs) env.frames env'.frames)
    (hy : y ∉ expr.mentions) :
    ∃ after, (expr.rename x z).eval env' = ((expr.eval env).1, after) ∧
      Renamed x y (z :: zs) (expr.eval env).2.frames after.frames := by
  induction expr generalizing env env' with
  | literal value => exact ⟨env', rfl, h⟩
  | grouping inner ih => exact ih h hy
  | unary op token operand ih =>
    obtain ⟨after, heval, hframes⟩ := ih h hy
    rw [Expr.rename, Expr.eval, Expr.eval, heval]
    rcases hx : operand.eval env with ⟨result, env₁⟩
    rw [hx] at hframes
    cases result <;> exact ⟨after, rfl, hframes⟩
  | binary op token left right ihl ihr =>
    rw [Expr.mentions, List.mem_append, not_or] at hy
    obtain ⟨after, heval, hframes⟩ := ihl h hy.1
    rw [Expr.rename, Expr.eval, Expr.eval, heval]
    rcases hx : left.eval env with ⟨result, env₁⟩
    rw [hx] at hframes
    cases result with
    | error e => exact ⟨after, rfl, hframes⟩
    | ok value =>
      obtain ⟨after₂, heval₂, hframes₂⟩ := ihr hframes hy.2
      dsimp only at heval₂ hframes₂ ⊢
      rw [heval₂]
      rcases hx₂ : right.eval env₁ with ⟨result₂, env₂⟩
      rw [hx₂] at hframes₂
      cases result₂ <;> exact ⟨after₂, rfl, hframes₂⟩
  | «variable» name =>
    have hname : name.lexeme ≠ y := fun he => hy (List.mem_singleton.mpr he.symm)
    exact ⟨env', Prod.ext (h.get hname) rfl, h⟩
  | assign name value ih =>
    rw [Expr.mentions, List.mem_cons, not_or] at hy
    obtain ⟨after, heval, hframes⟩ := ih h hy.2
    rw [Expr.rename, Expr.eval, Expr.eval, heval]
    rcases hx : value.eval env with ⟨result, env₁⟩
    rw [hx] at hframes
    cases result with
    | error e => exact ⟨after, rfl, hframes⟩
    | ok v =>
      dsimp only at hframes ⊢
      rcases hframes.assign (Ne.symm hy.1) v with ⟨e, he, he'⟩ | ⟨env₂, env₂', he, he', hr⟩
      · rw [he, he']
        exact ⟨after, rfl, hframes⟩
      · rw [he, he']
        exact ⟨env₂', rfl, hr⟩

end Environments

section Machines

variable {x y z : String} {zs : List String} {m m' : Machine}

structure Machine.Renamed (x y : String) (zs : List String) (m m' : Machine) : Prop where
  frames : Treewalk.Renamed x y zs m.env.frames m'.env.frames
  sink : m'.sink = m.sink
  scopes : m'.scopes = m.scopes

/-- Both runs end alike, and `z` stands for `x` afterwards. -/
structure EndsRenamed {α : Type} (x y z : String) (zs : List String)
    (a b : Except RuntimeError α × Machine) : Prop where
  result : b.1 = a.1
  machine : a.2.Renamed x y (z :: zs) b.2

theorem EndsRenamed.cases {α : Type} {a b : Except RuntimeError α × Machine}
    (h : EndsRenamed x y z zs a b) :
    (∃ r m m', a = (.ok r, m) ∧ b = (.ok r, m') ∧ m.Renamed x y (z :: zs) m') ∨
      ∃ e m m', a = (.error e, m) ∧ b = (.error e, m') ∧ m.Renamed x y (z :: zs) m' := by
  obtain ⟨result, m⟩ := a
  obtain ⟨result', m'⟩ := b
  obtain ⟨hresult, hm⟩ := h
  cases hresult
  cases result with
  | ok r => exact .inl ⟨r, m, m', rfl, rfl, hm⟩
  | error e => exact .inr ⟨e, m, m', rfl, rfl, hm⟩

theorem Machine.Renamed.eval (h : m.Renamed x y (z :: zs) m') {expr : Expr}
    (hy : y ∉ expr.mentions) :
    EndsRenamed x y z zs (m.eval expr) (m'.eval (expr.rename x z)) := by
  obtain ⟨after, heval, hframes⟩ := expr.eval_rename h.frames hy
  rw [Machine.eval, Machine.eval, heval]
  exact ⟨rfl, hframes, h.sink, h.scopes⟩

theorem Machine.Renamed.print (h : m.Renamed x y (z :: zs) m') (keyword : Token) (line : String) :
    EndsRenamed x y z zs (m.print keyword line) (m'.print keyword line) := by
  rw [Machine.print, Machine.print, h.sink]
  rcases m.sink.writeLine line with ⟨fits, sink⟩
  cases fits <;> exact ⟨rfl, h.frames, rfl, h.scopes⟩

/-- What stands for `x` behind a statement that ended with a result. -/
def Stmt.standIn (x z : String) (stmt : Stmt) : Except RuntimeError Unit → String
  | .ok _ => if stmt.declares = some x then x else z
  | .error _ => z

theorem Stmt.standIn_of_declares_eq_none {stmt : Stmt} (h : stmt.declares = none) (x z : String)
    (result : Except RuntimeError Unit) : stmt.standIn x z result = z := by
  cases result with
  | ok _ => simp [Stmt.standIn, h]
  | error _ => rfl

theorem Machine.Renamed.declare (h : m.Renamed x y (z :: zs) m') {name : Token}
    (hname : name.lexeme ≠ y) (hx : zs = [] → name.lexeme ≠ x) (initializer : Option Expr)
    (value : Value) :
    EndsRenamed x y ((Stmt.var name initializer).standIn x z (m.declare name value).1) zs
      (m.declare name value) (m'.declare name value) := by
  rw [Machine.declare, Machine.declare]
  rcases h.frames.define hname hx value with ⟨e, he, he'⟩ | ⟨env₁, env₁', he, he', hr⟩
  · rw [he, he']
    exact ⟨rfl, h⟩
  · rw [he, he']
    have hdeclares : (Stmt.var name initializer).standIn x z (.ok ()) =
        if name.lexeme = x then x else z := by
      simp [Stmt.standIn, Stmt.declares]
    refine ⟨rfl, ?_⟩
    dsimp only [environmentFaultAt, Except.mapError]
    rw [hdeclares]
    exact ⟨hr, h.sink, h.scopes⟩

theorem Machine.Renamed.enter (h : m.Renamed x y (z :: zs) m') :
    m.enter.Renamed x y (z :: z :: zs) m'.enter where
  frames := h.frames.push
  sink := h.sink
  scopes := by
    have hdepth : m'.env.push.depth = m.env.push.depth := congrArg (· + 1) h.frames.length_eq
    rw [Machine.enter, Machine.enter, h.scopes, hdepth]

theorem Machine.Renamed.leave {z' : String} (h : m.Renamed x y (z' :: z :: zs) m') :
    m.leave.Renamed x y (z :: zs) m'.leave where
  frames := h.frames.pop
  sink := h.sink
  scopes := by
    have hdepth : m'.env.pop.depth = m.env.pop.depth := h.frames.pop.length_eq
    rw [Machine.leave, Machine.leave, h.scopes, hdepth]

theorem Machine.Renamed.leave_eq (h : m.Renamed x y [z] m') : m'.leave = m.leave := by
  obtain ⟨env, sink, scopes⟩ := m
  obtain ⟨env', sink', scopes'⟩ := m'
  obtain ⟨hframes, rfl, rfl⟩ := h
  rw [Machine.leave, Machine.leave, hframes.pop_eq]

mutual

theorem Stmt.endsRenamed_exec (x y : String) : ∀ (stmt : Stmt) {m m' : Machine} {z : String}
    {zs : List String}, m.Renamed x y (z :: zs) m' → y ∉ stmt.mentions →
      (zs = [] → stmt.declares ≠ some x) →
        EndsRenamed x y (stmt.standIn x z (stmt.exec m).1) zs (stmt.exec m)
          ((stmt.renameUses x z).exec m')
  | .expression expr, m, m', z, zs, h, hy, _ => by
    rw [Stmt.standIn_of_declares_eq_none rfl, Stmt.renameUses, Stmt.exec, Stmt.exec]
    obtain ⟨value, m₁, m₁', hm, hm', h₁⟩ | ⟨e, m₁, m₁', hm, hm', h₁⟩ := (h.eval hy).cases
    · rw [hm, hm']
      exact ⟨rfl, h₁⟩
    · rw [hm, hm']
      exact ⟨rfl, h₁⟩
  | .print keyword expr, m, m', z, zs, h, hy, _ => by
    rw [Stmt.standIn_of_declares_eq_none rfl, Stmt.renameUses, Stmt.exec, Stmt.exec]
    obtain ⟨value, m₁, m₁', hm, hm', h₁⟩ | ⟨e, m₁, m₁', hm, hm', h₁⟩ := (h.eval hy).cases
    · rw [hm, hm']
      exact h₁.print keyword value.text
    · rw [hm, hm']
      exact ⟨rfl, h₁⟩
  | .var name none, m, m', z, zs, h, hy, hx => by
    have hname : name.lexeme ≠ y := fun he => hy (List.mem_singleton.mpr he.symm)
    rw [Stmt.renameUses, Option.map_none, Stmt.exec, Stmt.exec]
    exact h.declare hname (fun hzs he => hx hzs (congrArg some he)) none .nil
  | .var name (some initializer), m, m', z, zs, h, hy, hx => by
    rw [Stmt.mentions, List.mem_cons, not_or] at hy
    rw [Stmt.renameUses, Option.map_some, Stmt.exec, Stmt.exec]
    obtain ⟨value, m₁, m₁', hm, hm', h₁⟩ | ⟨e, m₁, m₁', hm, hm', h₁⟩ := (h.eval hy.2).cases
    · rw [hm, hm']
      exact h₁.declare (Ne.symm hy.1) (fun hzs he => hx hzs (congrArg some he)) _ value
    · rw [hm, hm']
      exact ⟨rfl, h₁⟩
  | .block body, m, m', z, zs, h, hy, _ => by
    obtain ⟨z', hresult, hmachine⟩ :=
      Stmt.endsRenamed_execAll x y body h.enter hy (fun hzs => nomatch hzs)
    rw [Stmt.standIn_of_declares_eq_none rfl, Stmt.renameUses, Stmt.exec, Stmt.exec]
    exact ⟨hresult, hmachine.leave⟩

theorem Stmt.endsRenamed_execAll (x y : String) : ∀ (body : List Stmt) {m m' : Machine} {z : String}
    {zs : List String}, m.Renamed x y (z :: zs) m' → y ∉ Stmt.listMentions body →
      (zs = [] → ∀ stmt ∈ body, stmt.declares ≠ some x) →
        ∃ z', EndsRenamed x y z' zs (Stmt.execAll body m)
          (Stmt.execAll (Stmt.listRenameUses x z body) m')
  | [], m, m', z, zs, h, _, _ => ⟨z, rfl, h⟩
  | stmt :: rest, m, m', z, zs, h, hy, hx => by
    rw [Stmt.listMentions, List.mem_append, not_or] at hy
    have hstmt := stmt.endsRenamed_exec x y h hy.1 fun hzs => hx hzs stmt List.mem_cons_self
    have hrest : zs = [] → ∀ stmt ∈ rest, stmt.declares ≠ some x :=
      fun hzs stmt hmem => hx hzs stmt (List.mem_cons_of_mem _ hmem)
    rw [Stmt.listRenameUses, Stmt.execAll, Stmt.execAll]
    obtain ⟨_, m₁, m₁', hm, hm', h₁⟩ | ⟨e, m₁, m₁', hm, hm', h₁⟩ := hstmt.cases
    · rw [hm, Stmt.standIn] at h₁
      rw [hm, hm']
      -- Behind another declaration of `x` nothing is renamed, which is renaming `x` to itself.
      split at h₁
      · rename_i hd
        have hall := Stmt.endsRenamed_execAll x y rest h₁ hy.2 hrest
        rw [Stmt.listRenameUses_self] at hall
        rw [if_pos hd]
        exact hall
      · rename_i hd
        rw [if_neg hd]
        exact Stmt.endsRenamed_execAll x y rest h₁ hy.2 hrest
    · rw [hm] at h₁
      rw [hm, hm']
      exact ⟨_, rfl, h₁⟩

end

/-- A frame in which a new name is declared, under one of two names. -/
theorem Machine.renamed_declare {ns : List String} {outer : List (List String)} {name : Token}
    (hn : m.env.names = ns :: outer) (houter : outer ≠ []) (hx : name.lexeme ∉ ns) (hy : y ∉ ns)
    (hne : name.lexeme ≠ y) (value : Value) :
    ∃ m₁ m₁', m.declare name value = (.ok (), m₁) ∧
      m.declare { name with lexeme := y } value = (.ok (), m₁') ∧
      m₁.Renamed name.lexeme y [y] m₁' := by
  obtain ⟨⟨frames⟩, sink, scopes⟩ := m
  obtain ⟨frame, rest, rfl, rfl, rfl⟩ := List.map_eq_cons_iff.mp hn
  have hsame : Frame.rename name.lexeme y ((name.lexeme, value) :: frame) = (y, value) :: frame := by
    have hrest : frame.rename name.lexeme y = frame := Frame.rename_of_not_mem hx
    rw [Frame.rename] at hrest ⊢
    rw [List.map_cons, hrest, if_pos rfl]
  refine ⟨⟨⟨((name.lexeme, value) :: frame) :: rest⟩, sink, scopes⟩,
    ⟨⟨((y, value) :: frame) :: rest⟩, sink, scopes⟩, ?_, ?_, ?_⟩
  · rw [Machine.declare, Environment.define_cons, Frame.lookup_eq_none_iff.mpr hx]
    rfl
  · rw [Machine.declare, Environment.define_cons, Frame.lookup_eq_none_iff.mpr hy]
    rfl
  · refine ⟨?_, rfl, rfl⟩
    dsimp only
    rw [← hsame]
    refine .frame List.mem_cons_self ?_ fun hnil => houter (by rw [hnil]; rfl)
    rw [List.map_cons, List.mem_cons, not_or]
    exact ⟨hne.symm, hy⟩

/-- A declaration under one of two names: without a value for it both fail, and in the same way. -/
theorem Stmt.exec_var_rename {ns : List String} {outer : List (List String)} {name : Token}
    (hn : m.env.names = ns :: outer) (houter : outer ≠ []) (hx : name.lexeme ∉ ns) (hy : y ∉ ns)
    (hne : name.lexeme ≠ y) (initializer : Option Expr) :
    (∃ e m₁, (Stmt.var name initializer).exec m = (.error e, m₁) ∧
        (Stmt.var { name with lexeme := y } initializer).exec m = (.error e, m₁)) ∨
      ∃ m₁ m₁', (Stmt.var name initializer).exec m = (.ok (), m₁) ∧
        (Stmt.var { name with lexeme := y } initializer).exec m = (.ok (), m₁') ∧
        m₁.Renamed name.lexeme y [y] m₁' := by
  cases initializer with
  | none =>
    rw [Stmt.exec, Stmt.exec]
    exact .inr (Machine.renamed_declare hn houter hx hy hne .nil)
  | some initializer =>
    have hnames := m.names_eval initializer
    rw [Stmt.exec, Stmt.exec]
    rcases heval : m.eval initializer with ⟨result, m₁⟩
    rw [heval] at hnames
    cases result with
    | error e => exact .inl ⟨e, m₁, rfl, rfl⟩
    | ok value => exact .inr (Machine.renamed_declare (hnames.trans hn) houter hx hy hne value)

end Machines

theorem Stmt.mem_mentions_of_declares {stmt : Stmt} {x : String} (h : stmt.declares = some x) :
    x ∈ stmt.mentions := by
  cases stmt with
  | var name initializer =>
    cases h
    cases initializer <;> simp [Stmt.mentions]
  | expression _ | print _ _ | block _ => cases h

theorem Stmt.mem_listMentions_of_declares {body : List Stmt} {x : String}
    (h : x ∈ body.filterMap Stmt.declares) : x ∈ Stmt.listMentions body := by
  induction body with
  | nil => cases h
  | cons stmt rest ih =>
    rw [Stmt.listMentions, List.mem_append]
    obtain ⟨stmt', hmem, hd⟩ := List.mem_filterMap.mp h
    rcases List.mem_cons.mp hmem with rfl | hmem
    · exact .inl (Stmt.mem_mentions_of_declares hd)
    · exact .inr (ih (List.mem_filterMap.mpr ⟨stmt', hmem, hd⟩))

/-- A variable that a block declares once may be given a name that does not occur in the block: the
renamed block has the same result, the same output and the same environment at its end, whatever the
frames around it bind. -/
theorem Stmt.exec_block_rename (before after : List Stmt) (name : Token)
    (initializer : Option Expr) (y : String) (m : Machine) (hframes : m.env.frames ≠ [])
    (honce : ∀ stmt ∈ before ++ after, stmt.declares ≠ some name.lexeme)
    (hy : y ∉ Stmt.listMentions (before ++ .var name initializer :: after)) :
    let block := Stmt.block (before ++ .var name initializer :: after)
    let renamed := Stmt.block (before ++ .var { name with lexeme := y } initializer ::
      Stmt.listRenameUses name.lexeme y after)
    renamed.exec m = block.exec m := by
  intro block renamed
  rw [Stmt.listMentions_append, Stmt.listMentions, List.mem_append, List.mem_append, not_or,
    not_or] at hy
  obtain ⟨hbefore, hvar, hafter⟩ := hy
  obtain ⟨ns, outer, hn⟩ := Environment.names_eq_cons hframes
  have henter : m.enter.env.names = [] :: ns :: outer := congrArg ([] :: ·) hn
  have hnames := Stmt.names_execAll before henter
  have hdeclared : ∀ x ∈ ((Stmt.completed before m.enter).filterMap Stmt.declares).reverse ++ [],
      x ∈ before.filterMap Stmt.declares := by
    intro x hx
    rw [List.append_nil, List.mem_reverse] at hx
    exact (Stmt.completed_prefix before m.enter).sublist.filterMap Stmt.declares |>.subset hx
  have hne : name.lexeme ≠ y := by
    rintro rfl
    exact hvar (Stmt.mem_mentions_of_declares rfl)
  rw [Stmt.exec, Stmt.exec, Stmt.execAll_append, Stmt.execAll_append]
  rcases hb : Stmt.execAll before m.enter with ⟨result, m₁⟩
  rw [hb] at hnames
  cases result with
  | error e => rfl
  | ok _ =>
    have hx : name.lexeme ∉ ((Stmt.completed before m.enter).filterMap Stmt.declares).reverse ++ [] := by
      intro hx
      obtain ⟨stmt, hmem, hd⟩ := List.mem_filterMap.mp (hdeclared _ hx)
      exact honce stmt (List.mem_append_left _ hmem) hd
    dsimp only
    rw [Stmt.execAll, Stmt.execAll]
    rcases Stmt.exec_var_rename hnames (List.cons_ne_nil _ _) hx
        (fun hmem => hbefore (Stmt.mem_listMentions_of_declares (hdeclared _ hmem))) hne initializer
      with ⟨e, m₂, he, he'⟩ | ⟨m₂, m₂', he, he', h₂⟩
    · rw [he, he']
    · rw [he, he']
      obtain ⟨z, hresult, hmachine⟩ := Stmt.endsRenamed_execAll name.lexeme y after h₂ hafter
        fun _ stmt hmem => honce stmt (List.mem_append_right _ hmem)
      exact Prod.ext hresult hmachine.leave_eq

/-- `{ print x; var x = x; { x = x; var x = x; print x; } print x; }` where `x` and `y` are bound
outside. -/
theorem Stmt.exec_block_rename_shadowed :
    let name (lexeme : String) : Token := ⟨.identifier, lexeme, none, 1, ⟨0, 1⟩⟩
    let keyword : Token := ⟨.print, "print", none, 1, ⟨0, 5⟩⟩
    let use (lexeme : String) : Expr := .variable (name lexeme)
    let before : List Stmt := [.print keyword (use "x")]
    let after : List Stmt :=
      [.block [.expression (.assign (name "x") (use "x")), .var (name "x") (some (use "x")),
        .print keyword (use "x")], .print keyword (use "x")]
    let renamed : List Stmt :=
      [.block [.expression (.assign (name "y") (use "y")), .var (name "x") (some (use "y")),
        .print keyword (use "x")], .print keyword (use "y")]
    let m : Machine := .start ⟨[[("x", .bool true), ("y", .nil)]]⟩ .unlimited
    m.env.frames ≠ [] ∧ (∀ stmt ∈ before ++ after, stmt.declares ≠ some "x") ∧
      "y" ∉ Stmt.listMentions (before ++ .var (name "x") (some (use "x")) :: after) ∧
      (Stmt.block (before ++ .var (name "y") (some (use "x")) :: renamed)).exec m =
        (Stmt.block (before ++ .var (name "x") (some (use "x")) :: after)).exec m := by
  intro name keyword use before after renamed m
  have hframes : m.env.frames ≠ [] := List.cons_ne_nil _ _
  have honce : ∀ stmt ∈ before ++ after, stmt.declares ≠ some "x" := by
    simp [before, after, Stmt.declares]
  have hy : "y" ∉ Stmt.listMentions (before ++ .var (name "x") (some (use "x")) :: after) := by
    decide
  exact ⟨hframes, honce, hy,
    Stmt.exec_block_rename before after (name "x") (some (use "x")) "y" m hframes honce hy⟩

end Treewalk
