import Treewalk.Value

/-! Variable bindings in nested scopes.
Frames stand innermost first. Declaring touches the innermost frame only; assigning changes the
nearest binding that exists. The last frame is the global scope and is never popped. -/

namespace Treewalk

/-- The bindings of one scope. -/
abbrev Frame := List (String × Value)

structure Environment where
  frames : List Frame

inductive EnvironmentError where
  | undefined (name : String)
  | alreadyDeclared (name : String)
deriving DecidableEq, Repr

def EnvironmentError.message : EnvironmentError → String
  | .undefined name => "Undefined variable '" ++ name ++ "'."
  | .alreadyDeclared name => "Variable '" ++ name ++ "' is already declared in this scope."

/-- Gives a bound name a new value, if it is bound. -/
def Frame.assign? (name : String) (value : Value) : Frame → Option Frame
  | [] => none
  | (n, v) :: rest =>
    if n = name then some ((n, value) :: rest)
    else (Frame.assign? name value rest).map ((n, v) :: ·)

/-- Gives a name a new value in the first frame that binds it. -/
def assignNearest? (name : String) (value : Value) : List Frame → Option (List Frame)
  | [] => none
  | frame :: rest =>
    match Frame.assign? name value frame with
    | some frame => some (frame :: rest)
    | none => (assignNearest? name value rest).map (frame :: ·)

/-- The global scope alone, with nothing bound. -/
def Environment.initial : Environment where
  frames := [[]]

def Environment.depth (env : Environment) : Nat :=
  env.frames.length

def Environment.push (env : Environment) : Environment where
  frames := [] :: env.frames

def Environment.pop (env : Environment) : Environment :=
  match env.frames with
  | _ :: frame :: rest => ⟨frame :: rest⟩
  | _ => env

theorem Environment.depth_pop_pos {env : Environment} (h : 0 < env.depth) : 0 < env.pop.depth := by
  unfold Environment.pop
  split
  · simp [Environment.depth]
  · exact h

/-- Binds a new name in the innermost frame. -/
def Environment.define (env : Environment) (name : String) (value : Value) :
    Except EnvironmentError Environment :=
  match env.frames with
  | [] => .ok ⟨[[(name, value)]]⟩
  | frame :: rest =>
    match frame.lookup name with
    | some _ => .error (.alreadyDeclared name)
    | none => .ok ⟨((name, value) :: frame) :: rest⟩

/-- The value of the nearest binding of a name. -/
def Environment.get (env : Environment) (name : String) : Except EnvironmentError Value :=
  match env.frames.findSome? (·.lookup name) with
  | some value => .ok value
  | none => .error (.undefined name)

/-- Gives the nearest binding of a name a new value. -/
def Environment.assign (env : Environment) (name : String) (value : Value) :
    Except EnvironmentError Environment :=
  match assignNearest? name value env.frames with
  | some frames => .ok ⟨frames⟩
  | none => .error (.undefined name)

end Treewalk
