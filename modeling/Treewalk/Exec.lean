import Treewalk.Eval
import Treewalk.Sink
import Treewalk.Stmt

/-! Executing statements. Statements run in order up to the first error; what was printed and bound
before it stays. A block has a scope of its own, which ends with it whether or not it failed. -/

namespace Treewalk

/-- The opening or closing of a scope, with the number of scopes open after it. -/
inductive ScopeChange where
  | pushed (depth : Nat)
  | popped (depth : Nat)
deriving DecidableEq, Repr

/-- What statements change: the bindings, the output, and the record of scopes. -/
structure Machine where
  env : Environment
  sink : Sink
  scopes : List ScopeChange

def Machine.start (env : Environment) (sink : Sink) : Machine where
  env := env
  sink := sink
  scopes := []

def Machine.enter (m : Machine) : Machine :=
  { m with
    env := m.env.push
    scopes := m.scopes ++ [.pushed m.env.push.depth] }

def Machine.leave (m : Machine) : Machine :=
  { m with
    env := m.env.pop
    scopes := m.scopes ++ [.popped m.env.pop.depth] }

/-- Evaluates an expression with the bindings of a machine. -/
def Machine.eval (m : Machine) (expr : Expr) : Except RuntimeError Value × Machine :=
  match expr.eval m.env with
  | (result, env) => (result, { m with env })

/-- Prints a line; a failed write is an error at the keyword. -/
def Machine.print (m : Machine) (keyword : Token) (line : String) :
    Except RuntimeError Unit × Machine :=
  match m.sink.writeLine line with
  | (true, sink) => (.ok (), { m with sink })
  | (false, sink) => (.error ⟨.outputFailed Sink.failure, keyword⟩, { m with sink })

/-- Declares a variable in the innermost scope. -/
def Machine.declare (m : Machine) (name : Token) (value : Value) :
    Except RuntimeError Unit × Machine :=
  match environmentFaultAt name (m.env.define name.lexeme value) with
  | .ok env => (.ok (), { m with env })
  | .error e => (.error e, m)

mutual

def Stmt.exec : Stmt → Machine → Except RuntimeError Unit × Machine
  | .expression expr, m =>
    match m.eval expr with
    | (.ok _, m) => (.ok (), m)
    | (.error e, m) => (.error e, m)
  | .print keyword expr, m =>
    match m.eval expr with
    | (.ok value, m) => m.print keyword value.text
    | (.error e, m) => (.error e, m)
  | .var name none, m => m.declare name .nil
  | .var name (some initializer), m =>
    match m.eval initializer with
    | (.ok value, m) => m.declare name value
    | (.error e, m) => (.error e, m)
  | .block body, m =>
    match Stmt.execAll body m.enter with
    | (result, m) => (result, m.leave)

/-- Executes statements in order, up to the first error. -/
def Stmt.execAll : List Stmt → Machine → Except RuntimeError Unit × Machine
  | [], m => (.ok (), m)
  | stmt :: rest, m =>
    match stmt.exec m with
    | (.ok _, m) => Stmt.execAll rest m
    | (.error e, m) => (.error e, m)

end

end Treewalk
