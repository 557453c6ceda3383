import Treewalk.CommandLine

/-! The program: arguments, files and streams around the command. -/

namespace Treewalk

def showAll (shown : List Shown) : IO Unit :=
  shown.forM fun item => item.lines.forM fun line => IO.eprintln line

def writeOutput (sink : Sink) : IO Unit := do
  let output ← IO.getStdout
  output.write ⟨sink.taken⟩
  output.flush

def fileContents (file : String) : IO (Except FileError (List UInt8)) := do
  try
    let bytes ← IO.FS.readBinFile file
    return .ok bytes.data.toList
  catch e =>
    match e with
    | .noFileOrDirectory .. => return .error .notFound
    | .inappropriateType .. => return .error .isDirectory
    | _ => return .error (.other (toString e))

/-- The bytes of the next line of the input, with its line feed; none at the end. -/
partial def readLine (input : IO.FS.Stream) (got : Array UInt8) : IO (List UInt8) := do
  let bytes ← input.read 1
  match bytes.data.toList with
  | [] => return got.toList
  | b :: _ => if b = 10 then return (got.push b).toList else readLine input (got.push b)

/-- Passes on what a session has written and told, and forgets it. -/
def Settings.deliver (settings : Settings) (s : Session) : IO Session := do
  writeOutput s.sink
  showAll (settings.shown s.notices)
  return { s with sink := .unlimited, notices := [] }

def Settings.close (settings : Settings) (result : Except SessionError Unit) (s : Session) :
    IO Nat := do
  let _ ← settings.deliver s
  showAll (settings.shown (sessionExit result).2)
  return (sessionExit result).1

/-- Prompts for lines and answers them until the session is done. -/
partial def Settings.converse (settings : Settings) (s : Session) : IO Nat := do
  match s.write prompt with
  | (.error e, s) => settings.close (.error e) s
  | (.ok _, s) =>
    let s ← settings.deliver s
    match ← readLine (← IO.getStdin) #[] with
    | [] =>
      let (result, s) := s.finish "\n"
      settings.close result s
    | line =>
      match s.answer settings.options line with
      | .next s => settings.converse s
      | .done result s => settings.close result s

/-- Ends the command with a result that is complete. -/
def CommandResult.deliver (r : CommandResult) : IO Nat := do
  writeOutput r.output
  showAll r.shown
  return r.exitCode

def runProgram (arguments : List String) : IO Nat := do
  match readArguments arguments with
  | .error stop => stop.result.deliver
  | .ok settings =>
    match settings.script? with
    | some file => (settings.runFile file (← fileContents file)).deliver
    | none =>
      showAll (settings.shown [settings.firstNotice])
      let (_, s) := (Session.start .unlimited).write banner
      settings.converse s

end Treewalk

def main (arguments : List String) : IO UInt32 := do
  return (← Treewalk.runProgram arguments).toUInt32
