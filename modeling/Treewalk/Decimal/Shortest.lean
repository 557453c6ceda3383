import Treewalk.Decimal.Nearest

/-! The shortest decimal that reads back as a given magnitude.
Decimal grids are tried from the coarsest to the finest; of a grid only the two points next to the
magnitude can be the nearest ones, and the first grid with a point that reads back decides. Main
statement: the decimal of every finite magnitude reads back as that magnitude. -/

namespace Treewalk

/-- The multiples of `10 ^ zeros / 10 ^ places`. -/
structure Grid where
  zeros : Nat
  places : Nat

/-- The point with the given number on a grid. -/
def Grid.point (g : Grid) (n : Nat) : Decimal where
  units := n * Nat.pow 10 g.zeros
  places := g.places

/-- The point of the grid that reads back as the magnitude: of two the nearer one, and the larger
when both are equally near. -/
def Grid.hit? (g : Grid) (bits : Nat) : Option Decimal :=
  let num := ticksOfBits bits * Nat.pow 10 g.places
  let den := ticksPerUnit * Nat.pow 10 g.zeros
  let below := g.point (num / den)
  let above := g.point (num / den + 1)
  if below.nearestBits = bits ∧ (above.nearestBits = bits → 2 * (num % den) < den) then some below
  else if above.nearestBits = bits then some above
  else none

/-- The grids of a magnitude below `10 ^ size`, coarsest first. The last one contains it. -/
def Grid.list (size : Nat) : List Grid :=
  (List.range size).reverse.map (fun n => ⟨n + 1, 0⟩) ++
    (List.range (tickExponent + 1)).map (fun n => ⟨0, n⟩)

/-- The magnitude itself, to all of its places. -/
def exactDecimal (bits : Nat) : Decimal where
  units := ticksOfBits bits * Nat.pow 5 tickExponent
  places := tickExponent

def shortestDecimal (bits : Nat) : Decimal :=
  let size := (Nat.toDigits 10 (ticksOfBits bits / ticksPerUnit)).length
  ((Grid.list size).findSome? (·.hit? bits)).getD (exactDecimal bits)

theorem nearestBits_exactDecimal {bits : Nat} (h : bits < infinityBits) :
    (exactDecimal bits).nearestBits = bits := by
  have hp : Nat.pow 10 tickExponent = ticksPerUnit * Nat.pow 5 tickExponent := by
    unfold ticksPerUnit
    generalize tickExponent = k
    simp only [Nat.pow_eq, ← Nat.mul_pow]
  have hc : 0 < Nat.pow 5 tickExponent := by
    generalize tickExponent = k
    rw [Nat.pow_eq]
    exact Nat.pow_pos (by decide)
  unfold exactDecimal Decimal.nearestBits
  simp only [hp]
  rw [nearestBits_mul_mul_right _ _ hc]
  exact nearestBits_ticksOfBits h

theorem Grid.nearestBits_of_hit? {g : Grid} {bits : Nat} {d : Decimal}
    (h : g.hit? bits = some d) : d.nearestBits = bits := by
  unfold Grid.hit? at h
  simp only at h
  split at h
  · rename_i hb
    cases h
    exact hb.1
  · split at h
    · rename_i ha
      cases h
      exact ha
    · cases h

/-- The shortest decimal of a finite magnitude reads back as it. -/
theorem nearestBits_shortestDecimal {bits : Nat} (h : bits < infinityBits) :
    (shortestDecimal bits).nearestBits = bits := by
  unfold shortestDecimal
  simp only
  cases hf : (Grid.list _).findSome? (·.hit? bits) with
  | none => exact nearestBits_exactDecimal h
  | some d =>
    obtain ⟨g, _, hg⟩ := List.exists_of_findSome?_eq_some hf
    exact Grid.nearestBits_of_hit? hg

end Treewalk
