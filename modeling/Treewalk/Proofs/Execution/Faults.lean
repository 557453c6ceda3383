import Treewalk.Eval

/-! The faults that expressions can have. Operators have none that comes from the environment, and
reading and assigning variables complain of undefined names only, so that evaluating never complains
of a name that is declared already. -/

namespace Treewalk

theorem UnaryOp.apply_ne_environment {op : UnaryOp} {v : Value} {error : EnvironmentError} :
    op.apply v ≠ .error (.environment error) := by
  unfold UnaryOp.apply
  split <;> simp

theorem addValues_ne_environment {v w : Value} {error : EnvironmentError} :
    addValues v w ≠ .error (.environment error) := by
  unfold addValues
  split <;> simp

theorem onNumbers_ne_environment {f : Float → Float → Value} {v w : Value}
    {error : EnvironmentError} : onNumbers f v w ≠ .error (.environment error) := by
  unfold onNumbers
  split <;> simp

theorem BinaryOp.apply_ne_environment {op : BinaryOp} {v w : Value} {error : EnvironmentError} :
    op.apply v w ≠ .error (.environment error) := by
  cases op with
  | add => exact addValues_ne_environment
  | equal | notEqual => simp [BinaryOp.apply]
  | subtract | multiply | divide | greater | greaterEqual | less | lessEqual =>
    exact onNumbers_ne_environment

theorem faultAt_eq_error {α : Type} {token : Token} {result : Except RuntimeFault α}
    {e : RuntimeError} (h : faultAt token result = .error e) : result = .error e.fault := by
  cases result with
  | ok a => cases h
  | error fault =>
    cases h
    rfl

theorem environmentFaultAt_eq_error {α : Type} {name : Token}
    {result : Except EnvironmentError α} {e : RuntimeError}
    (h : environmentFaultAt name result = .error e) :
    ∃ error, result = .error error ∧ e = ⟨.environment error, name⟩ := by
  cases result with
  | ok a => cases h
  | error error =>
    cases h
    exact ⟨error, rfl, rfl⟩

theorem Environment.get_ne_alreadyDeclared {env : Environment} {name x : String} :
    env.get name ≠ .error (.alreadyDeclared x) := by
  unfold Environment.get
  split <;> simp

theorem Environment.assign_ne_alreadyDeclared {env : Environment} {name x : String}
    {value : Value} : env.assign name value ≠ .error (.alreadyDeclared x) := by
  unfold Environment.assign
  split <;> simp

theorem Expr.eval_ne_alreadyDeclared (expr : Expr) {env : Environment} {e : RuntimeError}
    {x : String} (h : (expr.eval env).1 = .error e) :
    e.fault ≠ .environment (.alreadyDeclared x) := by
  induction expr generalizing env with
  | literal value => cases h
  | grouping inner ih => exact ih h
  | unary op token operand ih =>
    rw [Expr.eval] at h
    split at h
    · intro hfault
      exact UnaryOp.apply_ne_environment (hfault ▸ faultAt_eq_error h)
    · rename_i heq
      exact ih (by rw [heq]; exact h)
  | binary op token left right ihl ihr =>
    rw [Expr.eval] at h
    split at h
    · split at h
      · intro hfault
        exact BinaryOp.apply_ne_environment (hfault ▸ faultAt_eq_error h)
      · rename_i heq
        exact ihr (by rw [heq]; exact h)
    · rename_i heq
      exact ihl (by rw [heq]; exact h)
  | «variable» name =>
    obtain ⟨error, hget, rfl⟩ := environmentFaultAt_eq_error h
    intro hfault
    cases hfault
    exact Environment.get_ne_alreadyDeclared hget
  | assign name expr ih =>
    rw [Expr.eval] at h
    split at h
    · split at h
      · cases h
      · rename_i hfailed
        cases h
        obtain ⟨error, hassign, rfl⟩ := environmentFaultAt_eq_error hfailed
        intro hfault
        cases hfault
        exact Environment.assign_ne_alreadyDeclared hassign
    · rename_i heq
      exact ih (by rw [heq]; exact h)

end Treewalk
