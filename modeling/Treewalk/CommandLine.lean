import Treewalk.Arguments
import Treewalk.Session

/-! The command: running a file, or a session on the standard input. -/

namespace Treewalk

/-- What the command leaves behind. -/
structure CommandResult where
  exitCode : Nat
  output : Sink
  shown : List Shown

/-- The exit code for bad arguments and unreadable input. -/
def usageExitCode : Nat := 64

def versionText : String := "lox 0.1.0"

def shortHelpLines : List String :=
  [ "A tree-walking interpreter for the Lox language",
    "",
    "Usage: lox [OPTIONS] [FILE]",
    "",
    "Arguments:",
    "  [FILE]  The script file to execute",
    "",
    "Options:",
    "  -i, --interactive     Start in interactive REPL mode",
    "      --tokens          Print the scanned tokens before running",
    "      --ast             Print the parsed statements before running",
    "      --errors <STYLE>  How diagnostics are rendered [default: pretty] " ++
      "[possible values: pretty, plain]",
    "  -v, --verbose...      Increase log output (-v info, -vv debug, -vvv trace)",
    "  -h, --help            Print help (see more with '--help')",
    "  -V, --version         Print version" ]

def longHelpLines : List String :=
  [ "A tree-walking interpreter for the Lox language",
    "",
    "Usage: lox [OPTIONS] [FILE]",
    "",
    "Arguments:",
    "  [FILE]",
    "          The script file to execute",
    "",
    "Options:",
    "  -i, --interactive",
    "          Start in interactive REPL mode",
    "",
    "      --tokens",
    "          Print the scanned tokens before running",
    "",
    "      --ast",
    "          Print the parsed statements before running",
    "",
    "      --errors <STYLE>",
    "          How diagnostics are rendered",
    "",
    "          Possible values:",
    "          - pretty: Colored source excerpt with labels",
    "          - plain:  Single `[line N] Error: message` line",
    "          ",
    "          [default: pretty]",
    "",
    "  -v, --verbose...",
    "          Increase log output (-v info, -vv debug, -vvv trace)",
    "",
    "  -h, --help",
    "          Print help (see a summary with '-h')",
    "",
    "  -V, --version",
    "          Print version" ]

/-- Why a file cannot be read. -/
inductive FileError where
  | notFound
  | isDirectory
  | other (reason : String)
deriving DecidableEq, Repr

def FileError.message : FileError → String
  | .notFound => "No such file or directory (os error 2)"
  | .isDirectory => "Is a directory (os error 21)"
  | .other reason => reason

/-- The command ends with lines on its output. -/
def CommandResult.ofLines (lines : List String) : CommandResult :=
  ⟨0, (Sink.unlimited.writeLines lines).2, []⟩

/-- The command ends with nothing but lines on the error output. -/
def CommandResult.ofShown (shown : List Shown) : CommandResult :=
  ⟨usageExitCode, .unlimited, shown⟩

/-- The end of a command that runs nothing. Of a usage error the first line matters. -/
def Stop.result : Stop → CommandResult
  | .shortHelp => .ofLines shortHelpLines
  | .longHelp => .ofLines longHelpLines
  | .version => .ofLines [versionText]
  | .usage error => .ofShown ((shownLines error.message).take 1)

def Settings.shown (s : Settings) (notices : List Notice) : List Shown :=
  notices.flatMap (Notice.shown s.options.style (some s.level))

/-- What is logged first. -/
def Settings.firstNotice (s : Settings) : Notice :=
  .event (.optionsParsed s.options)

/-- What is logged about a run that failed. -/
def Status.notices (status : Status) : List Notice :=
  if status = .success then [] else [.event (.runFailed status.exitCode)]

/-- The end of a command whose file cannot be read. -/
def Settings.unreadable (s : Settings) (file : String) (reason : String) : CommandResult :=
  .ofShown (s.shown [s.firstNotice] ++
    shownLines ("Error reading file '" ++ file ++ "': " ++ reason))

/-- Runs a file with the given contents. -/
def Settings.runFile (s : Settings) (file : String) (contents : Except FileError (List UInt8)) :
    CommandResult :=
  match contents with
  | .error e => s.unreadable file e.message
  | .ok bytes =>
    match utf8Text? bytes with
    | none => s.unreadable file notTextMessage
    | some source =>
      let outcome := run source (some file) s.options .unlimited
      { exitCode := outcome.status.exitCode
        output := outcome.sink
        shown := s.shown (s.firstNotice :: outcome.notices ++ outcome.status.notices) }

/-- The exit code of a session, and what is logged if it broke off. -/
def sessionExit : Except SessionError Unit → Nat × List Notice
  | .ok _ => (0, [])
  | .error e => (usageExitCode, [.event (.sessionTerminated e.message)])

/-- Runs a session over an input. -/
def Settings.runSession (s : Settings) (input : List UInt8) : CommandResult :=
  match Treewalk.runSession input s.options .unlimited with
  | (result, session) =>
    { exitCode := (sessionExit result).1
      output := session.sink
      shown := s.shown (s.firstNotice :: session.notices ++ (sessionExit result).2) }

/-- The file that is to be run, if it is not to be a session. -/
def Settings.script? (s : Settings) : Option String :=
  if s.interactive then none else s.file

/-- The whole command, given the contents of files and the standard input. -/
def runCommand (arguments : List String) (contents : String → Except FileError (List UInt8))
    (input : List UInt8) : CommandResult :=
  match readArguments arguments with
  | .error stop => stop.result
  | .ok settings =>
    match settings.script? with
    | some file => settings.runFile file (contents file)
    | none => settings.runSession input

end Treewalk
