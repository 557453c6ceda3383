/-! Texts without terminal control: control characters and control sequences are left out.
What is left is part of the text, and a text without control characters stays as it is. -/

namespace Treewalk

/-- The sequence that a text stands in the middle of, or `text` outside of all. A device control
string has a head of parameters and intermediate characters, and then its data like any other
string; a command of the operating system ends with the bell. -/
inductive ControlState where
  | text
  | escape
  | escapeIntermediate
  | controlSequence
  | deviceEntry
  | deviceParameter
  | deviceIntermediate
  | string
  | systemCommand
deriving DecidableEq, Repr

/-- Whether the code of a character lies in a closed range. -/
def codeWithin (low high : Nat) (c : Char) : Bool :=
  low ≤ c.toNat && c.toNat ≤ high

/-- The control characters that lay out text. -/
def isLayout (c : Char) : Bool :=
  c == '\t' || c == '\n' || c == '\x0c' || c == '\r'

/-- The characters that show outside of sequences. -/
def isPrintable (c : Char) : Bool :=
  codeWithin 0x20 0x7E c || 128 ≤ c.toNat || isLayout c

/-- Whether the string terminator 0x9C is among the bytes of a character. -/
def holdsTerminator (c : Char) : Bool :=
  128 ≤ c.toNat && (String.utf8EncodeChar c).contains 0x9C

/-- The sequence that a character behind an escape opens. -/
def afterEscape (c : Char) : ControlState :=
  if codeWithin 0x20 0x2F c then .escapeIntermediate
  else if c = '[' then .controlSequence
  else if c = ']' then .systemCommand
  else if c = 'P' then .deviceEntry
  else if c = 'X' || c = '^' || c = '_' then .string
  else if codeWithin 0x30 0x7E c then .text
  else .escape

/-- The state after a character that does not show. An escape opens a sequence anywhere, and the
cancel and substitute characters end one. -/
def ControlState.next (s : ControlState) (c : Char) : ControlState :=
  if c = '\x1b' then .escape
  else if c = '\x18' || c = '\x1a' then .text
  else match s with
    | .text => .text
    | .escape => afterEscape c
    | .escapeIntermediate => if codeWithin 0x30 0x7E c then .text else s
    | .controlSequence => if codeWithin 0x40 0x7E c then .text else s
    | .deviceEntry =>
      if codeWithin 0x20 0x2F c then .deviceIntermediate
      else if codeWithin 0x30 0x3F c then .deviceParameter
      else if codeWithin 0x40 0x7E c then .string
      else s
    | .deviceParameter =>
      if codeWithin 0x20 0x2F c then .deviceIntermediate
      else if codeWithin 0x3C 0x7E c then .string
      else s
    | .deviceIntermediate => if codeWithin 0x30 0x7E c then .string else s
    | .string => if holdsTerminator c then .text else s
    | .systemCommand => if c = '\x07' then .text else s

/-- Whether layout characters inside a sequence show. -/
def ControlState.showsLayout : ControlState → Bool
  | .text | .escape | .escapeIntermediate | .controlSequence => true
  | _ => false

/-- The characters that show. A layout character inside a sequence interrupts it: `running` tells
that characters show as they do outside, until one does not and the sequence goes on. -/
def printableFrom : ControlState → Bool → List Char → List Char
  | _, _, [] => []
  | s, running, c :: cs =>
    if (running || s = .text) && isPrintable c then
      c :: printableFrom (if c.toNat < 128 then s else .text) true cs
    else if s.showsLayout && isLayout c then c :: printableFrom s true cs
    else printableFrom (s.next c) false cs

/-- The text without terminal control. -/
def printableText (text : String) : String :=
  String.ofList (printableFrom .text false text.toList)

end Treewalk
