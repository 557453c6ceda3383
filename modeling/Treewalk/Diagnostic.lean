import Treewalk.Scan

/-! Diagnostics: what is said about an error, and where.
Every kind of error of the language is turned into one of these to be shown. -/

namespace Treewalk

inductive Phase where
  | lexical
  | syntactic
  | runtime
deriving DecidableEq, Repr

/-- What a diagnostic names as its place besides the line. -/
inductive Location where
  | nowhere
  | atEnd
  | at (lexeme : String)
deriving DecidableEq, Repr

def Location.text : Location → String
  | .nowhere => ""
  | .atEnd => " at end"
  | .at lexeme => " at '" ++ lexeme ++ "'"

structure Diagnostic where
  phase : Phase
  span : Span
  line : Nat
  location : Location
  message : String
  help : Option String
deriving DecidableEq, Repr

/-- Errors found before a program runs; such a program does not run. -/
def Diagnostic.isStatic (d : Diagnostic) : Bool :=
  d.phase != .runtime

/-- The diagnostic as one line. -/
def Diagnostic.text (d : Diagnostic) : String :=
  "[line " ++ toString d.line ++ "] Error" ++ d.location.text ++ ": " ++ d.message

def LexicalFault.message : LexicalFault → String
  | .strayCharacter c => "Unexpected character '" ++ String.singleton c ++ "'."
  | .openString _ => "Unterminated string."

def LexicalFault.help : LexicalFault → String
  | .strayCharacter _ =>
    "Lox source may only contain operators, literals, identifiers and comments."
  | .openString openedOn =>
    "The string opened on line " ++ toString openedOn ++ " needs a closing '\"'."

def LexicalError.diagnostic (e : LexicalError) : Diagnostic where
  phase := .lexical
  span := e.span
  line := e.line
  location := .nowhere
  message := e.fault.message
  help := some e.fault.help

end Treewalk
