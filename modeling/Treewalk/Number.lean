import Treewalk.Decimal.Shortest

/-! Numbers of the language: binary64, read from decimal literals and written as the shortest
decimal that reads back, never with an exponent. -/

namespace Treewalk

/-- The number nearest to a decimal. -/
def numberOfDecimal (d : Decimal) : Float :=
  Float.ofBits d.nearestBits.toUInt64

/-- The sign bit of a number. -/
def numberIsNegative (x : Float) : Bool :=
  Nat.pow 2 63 ≤ x.toBits.toNat

/-- The bit pattern of a number without its sign. -/
def magnitudeBits (x : Float) : Nat :=
  x.toBits.toNat % Nat.pow 2 63

/-- The text of a number. Integral numbers have no point, and minus zero keeps its sign. -/
def numberText (x : Float) : String :=
  let sign := if numberIsNegative x then "-" else ""
  if infinityBits < magnitudeBits x then "NaN"
  else if magnitudeBits x = infinityBits then sign ++ "Infinity"
  else sign ++ String.ofList (shortestDecimal (magnitudeBits x)).chars

end Treewalk
