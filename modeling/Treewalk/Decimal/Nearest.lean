import Treewalk.Decimal

/-! The binary64 number nearest to a ratio, a half going to the even neighbour.
A magnitude is counted in ticks of 2^-1074, the least positive number, and the bit pattern of a
magnitude counts the numbers below it, so rounding up across a power of two needs no care. -/

namespace Treewalk

/-- The quotient rounded to the nearest natural number, a half to the even one. -/
def roundDiv (num den : Nat) : Nat :=
  if 2 * (num % den) < den then num / den
  else if den < 2 * (num % den) then num / den + 1
  else num / den + num / den % 2

/-- How many magnitudes each binary exponent has. -/
def binadeSize : Nat := Nat.pow 2 52

/-- A tick is one divided by this power of two. -/
def tickExponent : Nat := 1074

/-- One in ticks. -/
def ticksPerUnit : Nat := Nat.pow 2 tickExponent

/-- The bit pattern of infinity, above which there are only NaNs. -/
def infinityBits : Nat := 2047 * binadeSize

/-- The bit pattern of the magnitude nearest to `num / den`. Too large a ratio gives infinity. -/
def nearestBits (num den : Nat) : Nat :=
  let ticks := num * ticksPerUnit
  let shift := (ticks / den).log2 - 52
  min infinityBits (shift * binadeSize + roundDiv ticks (den * Nat.pow 2 shift))

/-- How many ticks the magnitude with this bit pattern measures. -/
def ticksOfBits (bits : Nat) : Nat :=
  if bits < binadeSize then bits
  else (bits % binadeSize + binadeSize) * Nat.pow 2 (bits / binadeSize - 1)

def Decimal.nearestBits (d : Decimal) : Nat :=
  Treewalk.nearestBits d.units (Nat.pow 10 d.places)

theorem powTwo_pos (k : Nat) : 0 < Nat.pow 2 k := by
  rw [Nat.pow_eq]
  exact Nat.two_pow_pos k

theorem ticksPerUnit_pos : 0 < ticksPerUnit := by
  unfold ticksPerUnit
  generalize tickExponent = k
  exact powTwo_pos k

theorem roundDiv_mul_right (q : Nat) {den : Nat} (h : 0 < den) : roundDiv (q * den) den = q := by
  simp [roundDiv, Nat.mul_div_cancel q h, h]

theorem log2_mul_pow {m : Nat} (hl : binadeSize ≤ m) (hu : m < 2 * binadeSize) (k : Nat) :
    (m * Nat.pow 2 k).log2 = 52 + k := by
  have hm : m ≠ 0 := by
    have : 0 < binadeSize := by decide
    omega
  have hb : binadeSize = 2 ^ 52 := rfl
  have hp := Nat.two_pow_pos k
  rw [Nat.pow_eq, Nat.log2_eq_iff (Nat.mul_ne_zero hm (by omega))]
  constructor
  · rw [Nat.pow_add, ← hb]
    exact Nat.mul_le_mul_right _ hl
  · have : 2 ^ (52 + k + 1) = 2 * binadeSize * 2 ^ k := by
      rw [hb, Nat.pow_succ, Nat.pow_add, Nat.mul_comm (2 ^ 52 * 2 ^ k) 2, Nat.mul_assoc]
    rw [this]
    exact Nat.mul_lt_mul_of_pos_right hu hp

theorem roundDiv_mul_mul_right (num den : Nat) {c : Nat} (h : 0 < c) :
    roundDiv (num * c) (den * c) = roundDiv num den := by
  have hl : 2 * (num % den * c) < den * c ↔ 2 * (num % den) < den := by
    rw [← Nat.mul_assoc]
    exact Nat.mul_lt_mul_right h
  have hg : den * c < 2 * (num % den * c) ↔ den < 2 * (num % den) := by
    rw [← Nat.mul_assoc]
    exact Nat.mul_lt_mul_right h
  simp only [roundDiv, Nat.mul_mod_mul_right, Nat.mul_div_mul_right _ _ h, hl, hg]

/-- Only the ratio matters. -/
theorem nearestBits_mul_mul_right (num den : Nat) {c : Nat} (h : 0 < c) :
    nearestBits (num * c) (den * c) = nearestBits num den := by
  have hn : num * c * ticksPerUnit = num * ticksPerUnit * c := by
    rw [Nat.mul_assoc, Nat.mul_comm c, Nat.mul_assoc]
  have hd (shift : Nat) : den * c * Nat.pow 2 shift = den * Nat.pow 2 shift * c := by
    rw [Nat.mul_assoc, Nat.mul_comm c, Nat.mul_assoc]
  simp only [nearestBits, hn, hd, Nat.mul_div_mul_right _ _ h, roundDiv_mul_mul_right _ _ h]

/-- A finite magnitude is the nearest one to itself. -/
theorem nearestBits_ticksOfBits {bits : Nat} (h : bits < infinityBits) :
    nearestBits (ticksOfBits bits) ticksPerUnit = bits := by
  have hu := ticksPerUnit_pos
  unfold nearestBits
  simp only [Nat.mul_div_cancel _ hu]
  by_cases hb : bits < binadeSize
  · have hz : (ticksOfBits bits).log2 - 52 = 0 := by
      have hlt : bits.log2 < 53 := by
        by_cases h0 : bits = 0
        · simp [h0]
        · exact (Nat.log2_lt h0).mpr (Nat.lt_trans hb (by decide))
      simp only [ticksOfBits, hb, if_true]
      omega
    rw [hz]
    simp only [Nat.zero_mul, Nat.zero_add, Nat.pow_eq, Nat.pow_zero, Nat.mul_one,
      roundDiv_mul_right _ hu]
    simp only [ticksOfBits, hb, if_true]
    omega
  · have hpos : 0 < binadeSize := by decide
    have hm : bits % binadeSize < binadeSize := Nat.mod_lt _ hpos
    have hk : 1 ≤ bits / binadeSize := (Nat.one_le_div_iff hpos).mpr (Nat.not_lt.mp hb)
    have hd := Nat.div_add_mod bits binadeSize
    have ht : ticksOfBits bits =
        (bits % binadeSize + binadeSize) * Nat.pow 2 (bits / binadeSize - 1) := by
      simp only [ticksOfBits, hb, if_false]
    have hs : (ticksOfBits bits).log2 - 52 = bits / binadeSize - 1 := by
      rw [ht, log2_mul_pow (by omega) (by omega)]
      omega
    have hr : ticksOfBits bits * ticksPerUnit =
        (bits % binadeSize + binadeSize) *
          (ticksPerUnit * Nat.pow 2 (bits / binadeSize - 1)) := by
      rw [ht, Nat.mul_assoc, Nat.mul_comm ticksPerUnit]
    rw [hs, hr, roundDiv_mul_right _ (Nat.mul_pos hu (powTwo_pos _))]
    have he : (bits / binadeSize - 1) * binadeSize + (bits % binadeSize + binadeSize) = bits := by
      obtain ⟨k, hk'⟩ : ∃ k, bits / binadeSize = k + 1 := ⟨_, (Nat.sub_add_cancel hk).symm⟩
      rw [hk'] at hd ⊢
      rw [Nat.add_sub_cancel, Nat.mul_comm k]
      rw [Nat.mul_add, Nat.mul_one] at hd
      omega
    rw [he]
    omega

end Treewalk
