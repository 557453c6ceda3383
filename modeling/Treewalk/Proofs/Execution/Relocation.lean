import Treewalk.Exec
import Treewalk.Proofs.Grammar.Relocation

/-! Executing statements does not look at places, and not at the record of scopes either: moved
statements do the same with the same environment and the same sink, and an error is found at the moved
token. Statements in a row are executed one part after the other. -/

namespace Treewalk

section Expressions

variable {α : Type} (f : Move)

def RuntimeError.move (e : RuntimeError) : RuntimeError :=
  { e with token := e.token.move f }

theorem faultAt_move (token : Token) (result : Except RuntimeFault α) :
    faultAt (token.move f) result = (faultAt token result).mapError (RuntimeError.move f) := by
  cases result <;> rfl

theorem environmentFaultAt_move (name : Token) (result : Except EnvironmentError α) :
    environmentFaultAt (name.move f) result =
      (environmentFaultAt name result).mapError (RuntimeError.move f) := by
  cases result <;> rfl

theorem mapError_ok (a : α) : (.ok a : Except RuntimeError α).mapError (RuntimeError.move f) = .ok a :=
  rfl

theorem Expr.eval_move (expr : Expr) (env : Environment) :
    (expr.move f).eval env =
      ((expr.eval env).1.mapError (RuntimeError.move f), (expr.eval env).2) := by
  induction expr generalizing env with
  | literal value => rfl
  | grouping inner ih => exact ih env
  | unary op token operand ih =>
    rw [Expr.move, Expr.eval, Expr.eval, ih]
    rcases operand.eval env with ⟨result, env'⟩
    cases result with
    | ok value => exact Prod.ext (faultAt_move f token _) rfl
    | error e => rfl
  | binary op token left right ihl ihr =>
    rw [Expr.move, Expr.eval, Expr.eval, ihl]
    rcases left.eval env with ⟨result, env'⟩
    cases result with
    | error e => rfl
    | ok value =>
      simp only [mapError_ok, ihr]
      rcases right.eval env' with ⟨result', env''⟩
      cases result' with
      | ok other => exact Prod.ext (faultAt_move f token _) rfl
      | error e => rfl
  | «variable» name => exact Prod.ext (environmentFaultAt_move f name _) rfl
  | assign name value ih =>
    rw [Expr.move, Expr.eval, Expr.eval, ih]
    rcases value.eval env with ⟨result, env'⟩
    cases result with
    | error e => rfl
    | ok value =>
      simp only [mapError_ok, environmentFaultAt_move, Token.lexeme_move]
      cases environmentFaultAt name (env'.assign name.lexeme value) <;> rfl

end Expressions

section Statements

variable {α : Type} {f : Move} {m n : Machine}

/-- Machines that differ at most in the record of scopes. -/
structure Machine.Alike (m n : Machine) : Prop where
  env : n.env = m.env
  sink : n.sink = m.sink

theorem Machine.Alike.enter (h : m.Alike n) : m.enter.Alike n.enter where
  env := congrArg Environment.push h.env
  sink := h.sink

theorem Machine.Alike.leave (h : m.Alike n) : m.leave.Alike n.leave where
  env := congrArg Environment.pop h.env
  sink := h.sink

/-- The second run ends as the first one does, but for the place of an error. -/
structure EndsMoved (f : Move) (x y : Except RuntimeError α × Machine) : Prop where
  result : y.1 = x.1.mapError (RuntimeError.move f)
  alike : x.2.Alike y.2

theorem Machine.Alike.eval (h : m.Alike n) (f : Move) (expr : Expr) :
    EndsMoved f (m.eval expr) (n.eval (expr.move f)) := by
  have heval := expr.eval_move f m.env
  rw [Machine.eval, Machine.eval, h.env, heval]
  exact ⟨rfl, rfl, h.sink⟩

theorem Machine.Alike.declare (h : m.Alike n) (f : Move) (name : Token) (value : Value) :
    EndsMoved f (m.declare name value) (n.declare (name.move f) value) := by
  rw [Machine.declare, Machine.declare, h.env, environmentFaultAt_move, Token.lexeme_move]
  cases environmentFaultAt name (m.env.define name.lexeme value) with
  | ok env => exact ⟨rfl, rfl, h.sink⟩
  | error e => exact ⟨rfl, h⟩

theorem Machine.Alike.print (h : m.Alike n) (f : Move) (keyword : Token) (line : String) :
    EndsMoved f (m.print keyword line) (n.print (keyword.move f) line) := by
  rw [Machine.print, Machine.print, h.sink]
  rcases m.sink.writeLine line with ⟨fits, sink⟩
  cases fits <;> exact ⟨rfl, h.env, rfl⟩

theorem EndsMoved.cases {x y : Except RuntimeError α × Machine} (h : EndsMoved f x y) :
    (∃ a m n, x = (.ok a, m) ∧ y = (.ok a, n) ∧ m.Alike n) ∨
      ∃ e m n, x = (.error e, m) ∧ y = (.error (e.move f), n) ∧ m.Alike n := by
  obtain ⟨result, m⟩ := x
  obtain ⟨result', n⟩ := y
  obtain ⟨hresult, halike⟩ := h
  dsimp only at hresult halike
  subst hresult
  cases result with
  | ok a => exact .inl ⟨a, m, n, rfl, rfl, halike⟩
  | error e => exact .inr ⟨e, m, n, rfl, rfl, halike⟩

mutual

theorem Stmt.endsMoved_exec (f : Move) : ∀ (stmt : Stmt) {m n : Machine}, m.Alike n →
    EndsMoved f (stmt.exec m) ((stmt.move f).exec n)
  | .expression expr, m, n, h => by
    rw [Stmt.move, Stmt.exec, Stmt.exec]
    obtain ⟨value, m', n', hm, hn, h'⟩ | ⟨e, m', n', hm, hn, h'⟩ := (h.eval f expr).cases
    · rw [hm, hn]
      exact ⟨rfl, h'⟩
    · rw [hm, hn]
      exact ⟨rfl, h'⟩
  | .print keyword expr, m, n, h => by
    rw [Stmt.move, Stmt.exec, Stmt.exec]
    obtain ⟨value, m', n', hm, hn, h'⟩ | ⟨e, m', n', hm, hn, h'⟩ := (h.eval f expr).cases
    · rw [hm, hn]
      exact h'.print f keyword value.text
    · rw [hm, hn]
      exact ⟨rfl, h'⟩
  | .var name none, m, n, h => by
    rw [Stmt.move, Option.map_none, Stmt.exec, Stmt.exec]
    exact h.declare f name .nil
  | .var name (some initializer), m, n, h => by
    rw [Stmt.move, Option.map_some, Stmt.exec, Stmt.exec]
    obtain ⟨value, m', n', hm, hn, h'⟩ | ⟨e, m', n', hm, hn, h'⟩ := (h.eval f initializer).cases
    · rw [hm, hn]
      exact h'.declare f name value
    · rw [hm, hn]
      exact ⟨rfl, h'⟩
  | .block body, m, n, h => by
    have hbody := Stmt.endsMoved_execAll f body h.enter
    rw [Stmt.move, Stmt.exec, Stmt.exec]
    exact ⟨hbody.result, hbody.alike.leave⟩

theorem Stmt.endsMoved_execAll (f : Move) : ∀ (body : List Stmt) {m n : Machine}, m.Alike n →
    EndsMoved f (Stmt.execAll body m) (Stmt.execAll (Stmt.listMove f body) n)
  | [], m, n, h => by
    rw [Stmt.listMove, Stmt.execAll, Stmt.execAll]
    exact ⟨rfl, h⟩
  | stmt :: rest, m, n, h => by
    rw [Stmt.listMove, Stmt.execAll, Stmt.execAll]
    obtain ⟨_, m', n', hm, hn, h'⟩ | ⟨e, m', n', hm, hn, h'⟩ := (stmt.endsMoved_exec f h).cases
    · rw [hm, hn]
      exact Stmt.endsMoved_execAll f rest h'
    · rw [hm, hn]
      exact ⟨rfl, h'⟩

end

theorem Stmt.execAll_append (xs ys : List Stmt) (m : Machine) :
    Stmt.execAll (xs ++ ys) m =
      match Stmt.execAll xs m with
      | (.ok _, m) => Stmt.execAll ys m
      | (.error e, m) => (.error e, m) := by
  induction xs generalizing m with
  | nil => rw [List.nil_append, Stmt.execAll]
  | cons stmt xs ih =>
    rw [List.cons_append, Stmt.execAll, Stmt.execAll]
    rcases stmt.exec m with ⟨result, m'⟩
    cases result with
    | ok _ => exact ih m'
    | error e => rfl

end Statements

end Treewalk
