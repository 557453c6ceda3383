import Treewalk.Exec

/-! The statements that execution comes to, each with the machine that it finds there. A run of
statements fails exactly when one of them that is no block fails, and with the error of that one. -/

namespace Treewalk

/-- Executing `body` with the machine `m` comes to `stmt`, inside `depth` blocks of `body`, with the
machine `n`. -/
inductive Reaches : List Stmt → Machine → Nat → Stmt → Machine → Prop where
  | here {stmt : Stmt} {rest : List Stmt} {m : Machine} : Reaches (stmt :: rest) m 0 stmt m
  | later {first stmt : Stmt} {rest : List Stmt} {m m' n : Machine} {depth : Nat}
      (hfirst : first.exec m = (.ok (), m')) (h : Reaches rest m' depth stmt n) :
      Reaches (first :: rest) m depth stmt n
  | inside {body rest : List Stmt} {stmt : Stmt} {m n : Machine} {depth : Nat}
      (h : Reaches body m.enter depth stmt n) :
      Reaches (.block body :: rest) m (depth + 1) stmt n

theorem Reaches.mem {body : List Stmt} {m n : Machine} {stmt : Stmt}
    (h : Reaches body m 0 stmt n) : stmt ∈ body := by
  generalize hd : 0 = depth at h
  induction h with
  | here => exact List.mem_cons_self
  | later _ _ ih => exact List.mem_cons_of_mem _ (ih hd)
  | inside _ _ => cases hd

theorem Stmt.exec_block_error {body : List Stmt} {m : Machine} {e : RuntimeError} :
    ((Stmt.block body).exec m).1 = .error e ↔ (Stmt.execAll body m.enter).1 = .error e := by
  rw [Stmt.exec]

theorem Stmt.execAll_cons_error {stmt : Stmt} {rest : List Stmt} {m : Machine} {e : RuntimeError}
    (h : (stmt.exec m).1 = .error e) : (Stmt.execAll (stmt :: rest) m).1 = .error e := by
  rw [Stmt.execAll]
  split
  · rename_i heq
    rw [heq] at h
    cases h
  · rename_i heq
    rwa [heq] at h

theorem Reaches.execAll_error {body : List Stmt} {m n : Machine} {depth : Nat} {stmt : Stmt}
    {e : RuntimeError} (h : Reaches body m depth stmt n) (he : (stmt.exec n).1 = .error e) :
    (Stmt.execAll body m).1 = .error e := by
  induction h with
  | here => exact Stmt.execAll_cons_error he
  | later hfirst _ ih =>
    rw [Stmt.execAll, hfirst]
    exact ih he
  | inside _ ih => exact Stmt.execAll_cons_error (Stmt.exec_block_error.mpr (ih he))

mutual

theorem Stmt.reaches_of_exec_error : ∀ (stmt : Stmt) (rest : List Stmt) {m : Machine}
    {e : RuntimeError}, (stmt.exec m).1 = .error e →
      ∃ depth target n, Reaches (stmt :: rest) m depth target n ∧
        (∀ body, target ≠ .block body) ∧ (target.exec n).1 = .error e
  | .expression expr, rest, m, e, h => ⟨0, _, m, .here, by simp, h⟩
  | .print keyword expr, rest, m, e, h => ⟨0, _, m, .here, by simp, h⟩
  | .var name initializer, rest, m, e, h => ⟨0, _, m, .here, by simp, h⟩
  | .block body, rest, m, e, h => by
    obtain ⟨depth, target, n, hr, hb, he⟩ :=
      Stmt.reaches_of_execAll_error body (Stmt.exec_block_error.mp h)
    exact ⟨depth + 1, target, n, .inside hr, hb, he⟩

theorem Stmt.reaches_of_execAll_error : ∀ (body : List Stmt) {m : Machine} {e : RuntimeError},
    (Stmt.execAll body m).1 = .error e →
      ∃ depth target n, Reaches body m depth target n ∧
        (∀ inner, target ≠ .block inner) ∧ (target.exec n).1 = .error e
  | [], m, e, h => by
    rw [Stmt.execAll] at h
    cases h
  | stmt :: rest, m, e, h => by
    rw [Stmt.execAll] at h
    split at h
    · rename_i m' heq
      obtain ⟨depth, target, n, hr, hb, he⟩ := Stmt.reaches_of_execAll_error rest h
      exact ⟨depth, target, n, .later heq hr, hb, he⟩
    · rename_i heq
      exact Stmt.reaches_of_exec_error stmt rest (by rwa [heq])

end

end Treewalk
