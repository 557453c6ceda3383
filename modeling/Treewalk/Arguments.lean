import Treewalk.Event
import Treewalk.Text.Printable

/-! Command-line arguments. They are taken from left to right, and the first that asks for help or
the version, or is an error, decides. The value of the style option is looked at when the next
argument has been recognized, so an argument that is not recognized is reported before it. -/

namespace Treewalk

/-- Options without a value. -/
inductive Switch where
  | interactive
  | tokens
  | ast
  | verbose
  | help
  | version
deriving DecidableEq, Repr

def Switch.ofLong? : String → Option Switch
  | "interactive" => some .interactive
  | "tokens" => some .tokens
  | "ast" => some .ast
  | "verbose" => some .verbose
  | "help" => some .help
  | "version" => some .version
  | _ => none

def Switch.ofShort? : Char → Option Switch
  | 'i' => some .interactive
  | 'v' => some .verbose
  | 'h' => some .help
  | 'V' => some .version
  | _ => none

/-- A switch as messages name it. -/
def Switch.text : Switch → String
  | .interactive => "--interactive"
  | .tokens => "--tokens"
  | .ast => "--ast"
  | .verbose => "--verbose..."
  | .help => "--help"
  | .version => "--version"

/-- The style option as messages name it. -/
def styleOptionText : String := "--errors <STYLE>"

inductive UsageError where
  | unexpectedArgument (argument : String)
  | invalidStyle (value : String)
  | missingStyle
  | unexpectedValue (value : String) (option : Switch)
  | repeated (option : String)
deriving DecidableEq, Repr

/-- What is said of an error. Arguments are quoted without terminal control. -/
def UsageError.message : UsageError → String
  | .unexpectedArgument argument =>
    "error: unexpected argument '" ++ printableText argument ++ "' found"
  | .invalidStyle value =>
    "error: invalid value '" ++ printableText value ++ "' for '" ++ styleOptionText ++ "'"
  | .missingStyle =>
    "error: a value is required for '" ++ styleOptionText ++ "' but none was supplied"
  | .unexpectedValue value option =>
    "error: unexpected value '" ++ printableText value ++ "' for '" ++ option.text ++
      "' found; no more were expected"
  | .repeated option => "error: the argument '" ++ option ++ "' cannot be used multiple times"

/-- Why no program or session is to be run. -/
inductive Stop where
  | shortHelp
  | longHelp
  | version
  | usage (error : UsageError)
deriving DecidableEq, Repr

/-- What is asked for, as far as the arguments have been taken. The pending style is the value of
a style option that has not been looked at, or none as long as the option has no value. -/
structure Settings where
  file : Option String := none
  interactive : Bool := false
  dumpTokens : Bool := false
  dumpTree : Bool := false
  style : Option Style := none
  verbosity : Nat := 0
  pendingStyle : Option (Option String) := none
deriving DecidableEq, Repr

def Settings.options (s : Settings) : RunOptions where
  style := s.style.getD .pretty
  dumpTokens := s.dumpTokens
  dumpTree := s.dumpTree

/-- The events that are logged. -/
def Settings.level (s : Settings) : Level :=
  match s.verbosity with
  | 0 => .warn
  | 1 => .info
  | 2 => .debug
  | _ => .trace

def Settings.setStyle (s : Settings) (value : String) : Except Stop Settings :=
  if s.style.isSome then .error (.usage (.repeated styleOptionText))
  else match Style.ofName? value with
    | some style => .ok { s with style := some style }
    | none => .error (.usage (if value = "" then .missingStyle else .invalidStyle value))

/-- Looks at the pending style. -/
def Settings.settle (s : Settings) : Except Stop Settings :=
  match s.pendingStyle with
  | none => .ok s
  | some none => .error (.usage .missingStyle)
  | some (some value) => { s with pendingStyle := none }.setStyle value

/-- Sets a switch that may be given only once. -/
def setOnce (isSet : Bool) (switch : Switch) (s : Settings) : Except Stop Settings :=
  if isSet then .error (.usage (.repeated switch.text)) else .ok s

/-- Takes a switch; `help` is what asking for help gives. -/
def Settings.takeSwitch (s : Settings) (switch : Switch) (help : Stop) : Except Stop Settings := do
  let s ← s.settle
  match switch with
  | .interactive => setOnce s.interactive switch { s with interactive := true }
  | .tokens => setOnce s.dumpTokens switch { s with dumpTokens := true }
  | .ast => setOnce s.dumpTree switch { s with dumpTree := true }
  | .verbose => .ok { s with verbosity := s.verbosity + 1 }
  | .help => .error help
  | .version => .error .version

/-- Takes an operand: the file, of which there is one. -/
def Settings.takeOperand (s : Settings) (argument : String) : Except Stop Settings := do
  if s.file.isSome then .error (.usage (.unexpectedArgument argument))
  else
    let s ← s.settle
    .ok { s with file := some argument }

/-- Takes the style option, with the value attached to it if there is one. -/
def Settings.takeStyle (s : Settings) (value : Option String) : Except Stop Settings := do
  let s ← s.settle
  match value with
  | some value => s.setStyle value
  | none => .ok { s with pendingStyle := some none }

/-- Takes an option given by its long name. -/
def Settings.takeLong (s : Settings) (name : String) (value : Option String) :
    Except Stop Settings :=
  if name = "errors" then s.takeStyle value
  else match Switch.ofLong? name, value with
    | none, _ => .error (.usage (.unexpectedArgument ("--" ++ name)))
    | some switch, some value => .error (.usage (.unexpectedValue value switch))
    | some switch, none => s.takeSwitch switch .longHelp

/-- Takes switches given by their letters. -/
def Settings.takeLetters : List Char → Settings → Except Stop Settings
  | [], s => .ok s
  | c :: cs, s =>
    match Switch.ofShort? c with
    | none => .error (.usage (.unexpectedArgument ("-" ++ String.singleton c)))
    | some switch => do
      let s ← s.takeSwitch switch .shortHelp
      s.takeLetters cs

/-- The value behind the first equals sign of an option. -/
def attachedValue? (option : List Char) : Option String :=
  match option.dropWhile (· != '=') with
  | [] => none
  | _ :: value => some (String.ofList value)

/-- Takes one argument, which may be the value of the style option in front of it. -/
def Settings.take (s : Settings) (argument : String) : Except Stop Settings :=
  match argument.toList with
  | '-' :: '-' :: option =>
    s.takeLong (String.ofList (option.takeWhile (· != '='))) (attachedValue? option)
  | '-' :: c :: cs => s.takeLetters (c :: cs)
  | _ =>
    if s.pendingStyle = some none then .ok { s with pendingStyle := some (some argument) }
    else s.takeOperand argument

/-- Takes all arguments; behind `--` there are operands only. -/
def Settings.takeAll : List String → Settings → Except Stop Settings
  | [], s => s.settle
  | argument :: rest, s => do
    if argument = "--" then
      let s ← rest.foldlM Settings.takeOperand s
      s.settle
    else
      let s ← s.take argument
      s.takeAll rest

/-- What the arguments ask for. -/
def readArguments (arguments : List String) : Except Stop Settings :=
  Settings.takeAll arguments {}

end Treewalk
