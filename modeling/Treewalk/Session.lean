import Treewalk.Run
import Treewalk.Text.Blank

/-! Interactive sessions: a prompt, a line, what the line does, and again.
Bindings last from line to line, and errors in a line do not end the session. -/

namespace Treewalk

structure Session where
  env : Environment
  sink : Sink
  notices : List Notice

/-- Why a session breaks off. -/
inductive SessionError where
  | outputFailed
  | notText
deriving DecidableEq, Repr

/-- What is said of bytes that are no text. -/
def notTextMessage : String := "stream did not contain valid UTF-8"

def SessionError.message : SessionError → String
  | .outputFailed => Sink.failure
  | .notText => notTextMessage

def banner : String :=
  "Lox Interpreter v0.1.0\nType 'exit' or press Ctrl+D to quit\n\n"

def prompt : String := "> "

def farewell : String := "Goodbye!\n"

/-- The expression whose value a line shows: the only statement of the line, and no assignment. -/
def echoed? : List Stmt → Option Expr
  | [.expression (.assign _ _)] => none
  | [.expression expr] => some expr
  | _ => none

/-- Evaluates the expression of a line and shows its value. -/
def Program.echo (p : Program) (expr : Expr) (env : Environment) (sink : Sink) : Outcome :=
  match expr.eval env with
  | (.ok value, env) =>
    match sink.writeLine value.text with
    | (written, sink) =>
      ⟨.success, env, sink, (writeEvents written .valueUnwritten).map .event⟩
  | (.error e, env) => ⟨.runtimeError, env, sink, [p.notice e.diagnostic]⟩

/-- Runs the program of one line. -/
def Program.runLine (p : Program) (options : RunOptions) (env : Environment) (sink : Sink) :
    Outcome :=
  match echoed? p.parsed.statements with
  | some expr => p.runWith options env sink (p.echo expr env)
  | none => p.runIn options env sink

def Session.runLine (s : Session) (options : RunOptions) (line : String) : Session :=
  let outcome := (Program.ofSource line none).runLine options s.env s.sink
  ⟨outcome.env, outcome.sink, s.notices ++ outcome.notices⟩

/-- Writes a text; whether it was written tells whether the session can go on. -/
def Session.write (s : Session) (text : String) : Except SessionError Unit × Session :=
  match s.sink.write text with
  | (true, sink) => (.ok (), { s with sink })
  | (false, sink) => (.error .outputFailed, { s with sink })

/-- Writes the last text of a session that ends as it should. -/
def Session.finish (s : Session) (text : String) : Except SessionError Unit × Session :=
  match s.write text with
  | (.ok _, s) => (.ok (), { s with notices := s.notices ++ [.event .sessionEnded] })
  | (.error e, s) => (.error e, s)

/-- How a session stands after a line. -/
inductive Turn where
  | next (s : Session)
  | done (result : Except SessionError Unit) (s : Session)

/-- What a line does. Blank characters at its ends do not count. -/
def Session.answer (s : Session) (options : RunOptions) (bytes : List UInt8) : Turn :=
  match utf8Text? bytes with
  | none => .done (.error .notText) s
  | some text =>
    let line := String.ofList (trimBlank text.toList)
    if line = "" then .next s
    else if line = "exit" ∨ line = "quit" then
      match s.finish farewell with
      | (result, s) => .done result s
    else .next (s.runLine options line)

/-- Prompts for each line and answers it; after the last line comes the end of the input. -/
def Session.runLines (options : RunOptions) :
    List (List UInt8) → Session → Except SessionError Unit × Session
  | [], s =>
    match s.write prompt with
    | (.ok _, s) => s.finish "\n"
    | (.error e, s) => (.error e, s)
  | line :: lines, s =>
    match s.write prompt with
    | (.ok _, s) =>
      match s.answer options line with
      | .next s => s.runLines options lines
      | .done result s => (result, s)
    | (.error e, s) => (.error e, s)

/-- Cuts bytes behind each line feed. -/
def splitLines : List UInt8 → List (List UInt8)
  | [] => []
  | b :: bytes =>
    if b = 10 then [b] :: splitLines bytes
    else match splitLines bytes with
      | [] => [[b]]
      | line :: lines => (b :: line) :: lines

/-- A session that has not begun. -/
def Session.start (sink : Sink) : Session :=
  ⟨.initial, sink, []⟩

/-- A whole session over an input. -/
def runSession (input : List UInt8) (options : RunOptions) (sink : Sink) :
    Except SessionError Unit × Session :=
  match (Session.start sink).write banner with
  | (.ok _, s) => s.runLines options (splitLines input)
  | (.error e, s) => (.error e, s)

end Treewalk
