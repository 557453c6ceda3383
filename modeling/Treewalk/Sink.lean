import Treewalk.Text.Utf8

/-! Where output goes: a store of bytes that may have a limit.
A write that does not fit is taken as far as it fits, and fails. -/

namespace Treewalk

structure Sink where
  /-- How many more bytes are taken, or none without limit. -/
  room : Option Nat
  taken : Array UInt8

/-- The reason given for a failed write. -/
def Sink.failure : String := "sink full"

/-- A sink that takes so many bytes, or all without limit. -/
def Sink.ofLimit (limit : Option Nat) : Sink where
  room := limit
  taken := #[]

def Sink.unlimited : Sink :=
  .ofLimit none

/-- Takes the bytes as far as they fit, and tells whether all of them did. -/
def Sink.writeBytes (sink : Sink) (bytes : List UInt8) : Bool × Sink :=
  match sink.room with
  | none => (true, ⟨none, sink.taken ++ bytes⟩)
  | some room => (bytes.length ≤ room, ⟨some (room - bytes.length), sink.taken ++ bytes.take room⟩)

def Sink.write (sink : Sink) (text : String) : Bool × Sink :=
  sink.writeBytes (utf8Bytes text)

def Sink.writeLine (sink : Sink) (line : String) : Bool × Sink :=
  sink.write (line ++ "\n")

/-- Writes lines up to the first one that does not fit, and tells whether all of them did. -/
def Sink.writeLines (sink : Sink) : List String → Bool × Sink
  | [] => (true, sink)
  | line :: lines =>
    match sink.writeLine line with
    | (true, sink) => sink.writeLines lines
    | (false, sink) => (false, sink)

theorem Sink.taken_writeBytes_unlimited {sink : Sink} (h : sink.room = none)
    (bytes : List UInt8) :
    (sink.writeBytes bytes).2.taken.toList = sink.taken.toList ++ bytes := by
  simp [Sink.writeBytes, h]

theorem Sink.taken_writeBytes_limited {sink : Sink} {room : Nat} (h : sink.room = some room)
    (bytes : List UInt8) :
    (sink.writeBytes bytes).2.taken.toList = sink.taken.toList ++ bytes.take room := by
  simp [Sink.writeBytes, h]

theorem Sink.writeBytes_fits_iff {sink : Sink} {room : Nat} (h : sink.room = some room)
    (bytes : List UInt8) : (sink.writeBytes bytes).1 = true ↔ bytes.length ≤ room := by
  simp [Sink.writeBytes, h]

/-- What the sink took, as text. -/
def Sink.text (sink : Sink) : String :=
  showCutText sink.taken.toList

end Treewalk
