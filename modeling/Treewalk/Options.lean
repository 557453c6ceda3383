/-! How a program is run and how its errors are shown. -/

namespace Treewalk

/-- How diagnostics are shown. -/
inductive Style where
  | pretty
  | plain
deriving DecidableEq, Repr

def Style.name : Style → String
  | .pretty => "Pretty"
  | .plain => "Plain"

def Style.ofName? : String → Option Style
  | "pretty" => some .pretty
  | "plain" => some .plain
  | _ => none

/-- The style, and whether the tokens and the statements are listed before a program runs. -/
structure RunOptions where
  style : Style
  dumpTokens : Bool
  dumpTree : Bool
deriving DecidableEq, Repr

def RunOptions.text (o : RunOptions) : String :=
  "RunOptions \x7b style: " ++ o.style.name ++ ", dump_tokens: " ++ toString o.dumpTokens ++
    ", dump_ast: " ++ toString o.dumpTree ++ " \x7d"

end Treewalk
