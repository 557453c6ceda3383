import Treewalk.Diagnostic
import Treewalk.Options

/-! Showing diagnostics. The plain style is one line; the pretty style is a report with a colored
header, the place in the source, a label and advice. -/

namespace Treewalk

/-- The parts of a pretty report behind its header. -/
structure Excerpt where
  place : String
  label : String
  note : Option String
deriving DecidableEq, Repr

/-- What appears on the error output: a line of text, or a pretty report. A report on an empty
source has no excerpt. -/
inductive Shown where
  | line (text : String)
  | report (header : String) (excerpt : Option Excerpt)
deriving DecidableEq, Repr

/-- A text as lines, one more than it has line feeds. -/
def shownLines (text : String) : List Shown :=
  (text.splitOn "\n").map Shown.line

/-- What is shown, as lines of a terminal. -/
def Shown.lines : Shown → List String
  | .line text => [text]
  | .report header none => ["Error: " ++ header]
  | .report header (some excerpt) =>
    ["Error: " ++ header, "  [" ++ excerpt.place ++ "]", "  " ++ excerpt.label] ++
      excerpt.note.toList.map ("  " ++ ·)

/-- A text in a terminal color. -/
def colored (color : String) (text : String) : String :=
  "\x1b[" ++ color ++ "m" ++ text ++ "\x1b[0m"

def Phase.color : Phase → String
  | .lexical => "31"
  | .syntactic => "33"
  | .runtime => "35"

def Phase.title : Phase → String
  | .lexical => "Lexical Error"
  | .syntactic => "Parse Error"
  | .runtime => "Runtime Error"

/-- Whether a line of a report ends behind this character. A line feed behind a carriage return
belongs to the same line end. -/
def endsReportLine (c : Char) (next : Option Char) : Bool :=
  c == '\n' || c == '\x0b' || c == '\x0c' || c == '\u0085' || c == '\u2028' || c == '\u2029' ||
    (c == '\r' && next != some '\n')

/-- The line and column that lie so many characters further on. A line end at the very end of the
source opens no line. -/
def lineColumnFrom (line column : Nat) : List Char → Nat → Nat × Nat
  | _, 0 => (line, column)
  | [], _ + 1 => (line, column)
  | c :: cs, n + 1 =>
    if endsReportLine c cs.head? && !cs.isEmpty then lineColumnFrom (line + 1) 1 cs n
    else lineColumnFrom line (column + 1) cs n

/-- The line and column of an offset, both counted from one. -/
def lineColumn (source : List Char) (offset : Nat) : Nat × Nat :=
  lineColumnFrom 1 1 source offset

/-- The name given to a source that is no file. -/
def unnamedSource : String := "<repl>"

/-- The start of a span, moved back into a source of the given length. -/
def Span.startWithin (s : Span) (length : Nat) : Nat :=
  min s.start (min s.stop length)

def Diagnostic.place (d : Diagnostic) (source : List Char) (filename : Option String) : String :=
  let (line, column) := lineColumn source (d.span.startWithin source.length)
  filename.getD unnamedSource ++ ":" ++ toString line ++ ":" ++ toString column

def Diagnostic.header (d : Diagnostic) : String :=
  colored d.phase.color d.phase.title ++ d.location.text ++ ": " ++ d.message

def Diagnostic.excerpt (d : Diagnostic) (source : List Char) (filename : Option String) :
    Excerpt where
  place := d.place source filename
  label := "line " ++ toString d.line ++ ": " ++ d.message
  note := d.help.map fun help => colored "36" "help" ++ ": " ++ help

/-- The diagnostic as it appears in a style. -/
def Diagnostic.shown (d : Diagnostic) (style : Style) (source : String)
    (filename : Option String) : List Shown :=
  match style with
  | .plain => shownLines d.text
  | .pretty =>
    [.report d.header
      (if source.isEmpty then none else some (d.excerpt source.toList filename))]

end Treewalk
