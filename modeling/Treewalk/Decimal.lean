/-! Decimals without exponent: a number of units and how many of its digits follow the point.
They are what number literals denote and what numbers print as. -/

namespace Treewalk

/-- The number `units / 10 ^ places`. -/
structure Decimal where
  units : Nat
  places : Nat
deriving DecidableEq, Repr

/-- The decimal written by the digits before and after the point. -/
def Decimal.ofDigits (whole fraction : List Char) : Decimal where
  units := Nat.ofDigitChars 10 (whole ++ fraction) 0
  places := fraction.length

/-- Digits, then a point and as many digits as there are places, if there are any. -/
def Decimal.chars (d : Decimal) : List Char :=
  if d.places = 0 then Nat.toDigits 10 d.units
  else Nat.toDigits 10 (d.units / Nat.pow 10 d.places) ++ '.' ::
    (Nat.toDigits 10 (d.units % Nat.pow 10 d.places)).leftpad d.places '0'

end Treewalk
