import Treewalk.Exec
import Treewalk.Options

/-! Events worth logging, and the lines they are logged as. -/

namespace Treewalk

/-- How important an event is, and how much is to be logged. -/
inductive Level where
  | error
  | warn
  | info
  | debug
  | trace
deriving DecidableEq, Repr

def Level.rank : Level → Nat
  | .error => 0
  | .warn => 1
  | .info => 2
  | .debug => 3
  | .trace => 4

/-- The name of a level, filled up to five columns. -/
def Level.text : Level → String
  | .error => "ERROR"
  | .warn => " WARN"
  | .info => " INFO"
  | .debug => "DEBUG"
  | .trace => "TRACE"

inductive Event where
  | optionsParsed (options : RunOptions)
  | strayCharacter (line : Nat) (c : Char)
  | scanFinished (tokens errors : Nat)
  | tokensUnwritten (reason : String)
  | resumed (skipped line : Nat)
  | parseFinished (statements errors : Nat)
  | staticErrors (count : Nat)
  | treeUnwritten (reason : String)
  | interpreting (statements : Nat)
  | scope (change : ScopeChange)
  | runtimeError (line : Nat) (message : String)
  | valueUnwritten (reason : String)
  | runFailed (code : Nat)
  | sessionEnded
  | sessionTerminated (reason : String)
deriving DecidableEq, Repr

def Event.level : Event → Level
  | .optionsParsed _ => .debug
  | .strayCharacter _ _ => .trace
  | .scanFinished _ _ => .debug
  | .tokensUnwritten _ => .warn
  | .resumed _ _ => .trace
  | .parseFinished _ _ => .debug
  | .staticErrors _ => .info
  | .treeUnwritten _ => .warn
  | .interpreting _ => .debug
  | .scope _ => .trace
  | .runtimeError _ _ => .debug
  | .valueUnwritten _ => .debug
  | .runFailed _ => .debug
  | .sessionEnded => .debug
  | .sessionTerminated _ => .error

/-- One named number of an event. -/
def countText (name : String) (n : Nat) : String :=
  " " ++ name ++ "=" ++ toString n

def Event.message : Event → String
  | .optionsParsed options => "options parsed options=" ++ options.text
  | .strayCharacter line c =>
    "unexpected character" ++ countText "line" line ++ " character=" ++ String.singleton c
  | .scanFinished tokens errors =>
    "scan finished" ++ countText "tokens" tokens ++ countText "errors" errors
  | .tokensUnwritten reason => "failed to write token dump: " ++ reason
  | .resumed skipped line => "synchronized" ++ countText "skipped" skipped ++ countText "line" line
  | .parseFinished statements errors =>
    "parse finished" ++ countText "statements" statements ++ countText "errors" errors
  | .staticErrors count => "static errors, skipping evaluation" ++ countText "count" count
  | .treeUnwritten reason => "failed to write AST dump: " ++ reason
  | .interpreting statements => "interpreting" ++ countText "statements" statements
  | .scope (.pushed depth) => "scope pushed" ++ countText "depth" depth
  | .scope (.popped depth) => "scope popped" ++ countText "depth" depth
  | .runtimeError line message => "runtime error" ++ countText "line" line ++ " " ++ message
  | .valueUnwritten reason => "failed to echo value: " ++ reason
  | .runFailed code => "run failed" ++ countText "code" code
  | .sessionEnded => "repl session ended"
  | .sessionTerminated reason => "repl terminated: " ++ reason

def Event.text (e : Event) : String :=
  e.level.text ++ " " ++ e.message

end Treewalk
