/-! Positions in a source text: how many characters and how many line ends stand before. -/

namespace Treewalk

/-- A place between two characters. Lines count from one. -/
structure Position where
  offset : Nat
  line : Nat
deriving DecidableEq, Repr

def Position.start : Position where
  offset := 0
  line := 1

/-- The position after some further characters. -/
def Position.after (p : Position) (text : List Char) : Position where
  offset := p.offset + text.length
  line := p.line + text.count '\n'

@[simp]
theorem Position.after_nil (p : Position) : p.after [] = p := by
  simp [Position.after]

@[simp]
theorem Position.after_append (p : Position) (s t : List Char) :
    p.after (s ++ t) = (p.after s).after t := by
  simp [Position.after, Nat.add_assoc]

end Treewalk
