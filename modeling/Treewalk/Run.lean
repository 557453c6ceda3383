import Treewalk.Notice

/-! Running a source text: scanning, parsing and, if no error was found, executing it.
A run may begin in any environment, and what it binds stays for later runs. -/

namespace Treewalk

/-- A source text with its tokens and statements. -/
structure Program where
  source : String
  filename : Option String
  scanned : Scan
  parsed : Parse

def Program.ofSource (source : String) (filename : Option String) : Program :=
  let scanned := scan source
  { source, filename, scanned, parsed := parse scanned.tokens }

/-- All errors found before running: the lexical ones first. -/
def Program.diagnostics (p : Program) : List Diagnostic :=
  p.scanned.errors.map LexicalError.diagnostic ++ p.parsed.diagnostics

/-- The events of reading a program, with those of listing its tokens in between. -/
def Program.events (p : Program) (listing : List Event) : List Event :=
  p.scanned.events ++ listing ++ p.parsed.events

/-- The notice of a diagnostic about a program. -/
def Program.notice (p : Program) (d : Diagnostic) : Notice :=
  .diagnostic d p.source p.filename

/-- What is told about a program that cannot run. -/
def Program.staticNotices (p : Program) : List Notice :=
  .event (.staticErrors p.diagnostics.length) :: p.diagnostics.map p.notice

/-- What is logged after a write, given whether it succeeded. -/
def writeEvents (written : Bool) (unwritten : String → Event) : List Event :=
  if written then [] else [unwritten Sink.failure]

/-- Writes a listing if it was asked for. That it could not be written is an event, and no error. -/
def writeListing (asked : Bool) (lines : List String) (unwritten : String → Event) (sink : Sink) :
    List Event × Sink :=
  if asked then
    match sink.writeLines lines with
    | (written, sink) => (writeEvents written unwritten, sink)
  else ([], sink)

def Program.writeTokens (p : Program) (options : RunOptions) : Sink → List Event × Sink :=
  writeListing options.dumpTokens (p.scanned.tokens.map Token.text) .tokensUnwritten

def Program.writeTree (p : Program) (options : RunOptions) : Sink → List Event × Sink :=
  writeListing options.dumpTree (p.parsed.statements.map Stmt.text) .treeUnwritten

/-- The result of executing statements, with the events of it. -/
structure Execution where
  result : Except RuntimeError Unit
  env : Environment
  sink : Sink
  events : List Event

def runtimeErrorEvents : Except RuntimeError Unit → List Event
  | .ok _ => []
  | .error e => [.runtimeError e.diagnostic.line e.diagnostic.message]

def execute (statements : List Stmt) (env : Environment) (sink : Sink) : Execution :=
  match Stmt.execAll statements (.start env sink) with
  | (result, m) =>
    { result
      env := m.env
      sink := m.sink
      events :=
        .interpreting statements.length :: m.scopes.map Event.scope ++ runtimeErrorEvents result }

inductive Status where
  | success
  | staticError
  | runtimeError
deriving DecidableEq, Repr

def Status.exitCode : Status → Nat
  | .success => 0
  | .staticError => 65
  | .runtimeError => 70

structure Outcome where
  status : Status
  env : Environment
  sink : Sink
  notices : List Notice

/-- The outcome of a program that has been executed. -/
def Program.outcome (p : Program) (x : Execution) : Outcome :=
  match x.result with
  | .ok _ => ⟨.success, x.env, x.sink, x.events.map .event⟩
  | .error e =>
    ⟨.runtimeError, x.env, x.sink, x.events.map .event ++ [p.notice e.diagnostic]⟩

/-- Does with a program what `body` does once the listings that were asked for are written. With an
error in the program the errors are told instead, and the environment stays as it is. -/
def Program.runWith (p : Program) (options : RunOptions) (env : Environment) (sink : Sink)
    (body : Sink → Outcome) : Outcome :=
  let tokens := p.writeTokens options sink
  let read := (p.events tokens.1).map Notice.event
  if p.diagnostics.isEmpty then
    let tree := p.writeTree options tokens.2
    let outcome := body tree.2
    { outcome with notices := read ++ tree.1.map .event ++ outcome.notices }
  else ⟨.staticError, env, tokens.2, read ++ p.staticNotices⟩

/-- Executes a program. -/
def Program.runIn (p : Program) (options : RunOptions) (env : Environment) (sink : Sink) :
    Outcome :=
  p.runWith options env sink fun sink => p.outcome (execute p.parsed.statements env sink)

/-- Runs a source text in an environment. -/
def runIn (source : String) (filename : Option String) (options : RunOptions)
    (env : Environment) (sink : Sink) : Outcome :=
  (Program.ofSource source filename).runIn options env sink

/-- Runs a source text with nothing bound. -/
def run (source : String) (filename : Option String) (options : RunOptions) (sink : Sink) :
    Outcome :=
  runIn source filename options .initial sink

end Treewalk
