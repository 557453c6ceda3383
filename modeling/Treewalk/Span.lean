/-! Ranges of character offsets in a source text. -/

namespace Treewalk

/-- The characters from offset `start` up to, and not including, offset `stop`. -/
structure Span where
  start : Nat
  stop : Nat
deriving DecidableEq, Repr

/-- The range of one character. -/
def Span.single (offset : Nat) : Span where
  start := offset
  stop := offset + 1

/-- The empty range at an offset. -/
def Span.empty (offset : Nat) : Span where
  start := offset
  stop := offset

end Treewalk
