import Mathlib
import Treewalk.Proofs.Lexing.FirstPiece
import Treewalk.Scan

/-! Numbers and their texts. A number keeps the bits that it is made from, and a decimal is read from
the digits that it is written with. So the text of a finite number is a number lexeme, and the value
of that lexeme is the number. -/

namespace Treewalk

section Bits

open Float.Model UnpackedFloat

theorem packComponents_parts (b : BitVec 64) :
    packComponents .binary64 (.ofBitVec (@unpackSign .binary64 b)) (@unpackExponent .binary64 b)
      (@unpackMantissa .binary64 b) = b := by
  have hsign : ∀ v : BitVec 1, (UnpackedFloat.Sign.ofBitVec v).toBitVec = v := by decide
  rw [packComponents, hsign]
  ext i hi
  simp only [unpackSign, unpackExponent, unpackMantissa, BitVec.getElem_append]
  grind

theorem pack_subnormal (s : UnpackedFloat.Sign) {m : BitVec 52} (hm : 0 < m.toNat) :
    UnpackedFloat.pack .binary64 (.finite s m.toNat (-1074) hm) =
      packComponents .binary64 s 0#11 m := by
  have hlog : m.toNat.log2 < 52 := (Nat.log2_lt (by omega)).mpr m.isLt
  have hne : m.toNat.log2 + 1 ≠ Format.binary64.mantissaBits := by
    simp only [Format.mantissaBits]
    omega
  rw [UnpackedFloat.pack]
  simp [Format.exponentBias, hne]

theorem pack_normal (s : UnpackedFloat.Sign) {e : BitVec 11} (m : BitVec 52) (he : e ≠ -1#11)
    (h : 0 < (1#1 ++ m).toNat) :
    UnpackedFloat.pack .binary64 (.finite s (1#1 ++ m).toNat (e.toNat - 1075) h) =
      packComponents .binary64 s e m := by
  have hm : (1#1 ++ m).toNat = 2 ^ 52 + m.toNat := by
    rw [BitVec.toNat_append, ← Nat.shiftLeft_add_eq_or_of_lt m.isLt]
    rfl
  have hlog : (1#1 ++ m).toNat.log2 = 52 := by
    have hlt := m.isLt
    rw [hm, (Nat.log2_eq_iff (by omega)).mpr ⟨Nat.le_add_right _ _, by omega⟩]
  have hexponent : ((e.toNat : Int) - 1075 + Format.binary64.exponentBias +
      Format.binary64.mantissaBitsWithoutImplicit).toNat = e.toNat := by
    simp only [Format.exponentBias]
    omega
  have hlt : e.toNat + 1 < 2 ^ 11 := by
    have hne : e.toNat ≠ 2 ^ 11 - 1 := fun h => he (BitVec.eq_of_toNat_eq h)
    have hle := e.isLt
    omega
  have hmantissa : BitVec.ofNat 52 (1#1 ++ m).toNat = m := by
    rw [hm]
    apply BitVec.eq_of_toNat_eq
    simp [Nat.mod_eq_of_lt m.isLt]
  rw [UnpackedFloat.pack]
  simp only [hlog, hexponent]
  rw [if_neg (Nat.not_le.mpr hlt), if_pos (by decide), hmantissa, BitVec.ofNat_toNat,
    BitVec.setWidth_eq]

/-- Only the bits of a NaN can change when they are made a number. -/
theorem pack_unpack {b : BitVec 64} (h : Format.binary64.Valid b) :
    UnpackedFloat.pack .binary64 (UnpackedFloat.unpack .binary64 b) = b := by
  have hb := packComponents_parts b
  unfold UnpackedFloat.unpack
  simp only
  split
  · rename_i he
    split
    · rename_i hm
      rw [he, hm] at hb
      exact hb
    · rename_i hm
      exact (h.eq_packedNaN he hm).symm
  · rename_i he
    split
    · rename_i hzero
      rw [hzero] at hb ⊢
      split
      · rename_i hm
        rw [hm] at hb
        exact hb
      · exact (pack_subnormal _ _).trans hb
    · exact (pack_normal _ (@unpackMantissa .binary64 b) he _).trans hb

theorem toNat_unpackExponent (b : BitVec 64) :
    (@unpackExponent .binary64 b).toNat = b.toNat / 2 ^ 52 % 2 ^ 11 := by
  rw [unpackExponent, BitVec.toNat_cast, BitVec.extractLsb_toNat, Nat.shiftRight_eq_div_pow]
  rfl

theorem toNat_unpackMantissa (b : BitVec 64) :
    (@unpackMantissa .binary64 b).toNat = b.toNat % 2 ^ 52 := by
  rw [unpackMantissa, BitVec.toNat_cast, BitVec.extractLsb_toNat]
  rfl

theorem toNat_unpackSign (b : BitVec 64) :
    (@unpackSign .binary64 b).toNat = b.toNat / 2 ^ 63 % 2 := by
  rw [unpackSign, BitVec.toNat_cast, BitVec.extractLsb_toNat, Nat.shiftRight_eq_div_pow]
  rfl

theorem valid_of_le_infinityBits {bits : Nat} (h : bits ≤ infinityBits) :
    Format.binary64.Valid bits.toUInt64.toBitVec := by
  refine ⟨fun he hm => absurd ?_ hm⟩
  have hinfinity : infinityBits = 2047 * 2 ^ 52 := rfl
  have hbits : bits.toUInt64.toBitVec.toNat = bits := Nat.mod_eq_of_lt (by omega)
  have hexponent : bits / 2 ^ 52 % 2 ^ 11 = 2047 := by
    have hnat := congrArg BitVec.toNat he
    rwa [toNat_unpackExponent, hbits] at hnat
  apply BitVec.eq_of_toNat_eq
  rw [toNat_unpackMantissa, hbits]
  have hmantissa : bits % 2 ^ 52 = 0 := by omega
  exact hmantissa

/-- The bits of a magnitude that is not a NaN are kept. -/
theorem toBits_ofBits {bits : Nat} (h : bits ≤ infinityBits) :
    (Float.ofBits bits.toUInt64).toBits.toNat = bits := by
  have hpack := pack_unpack (valid_of_le_infinityBits h)
  have hbits : infinityBits = 2047 * 2 ^ 52 := rfl
  have htoBits : (Float.ofBits bits.toUInt64).toBits =
      .ofBitVec (UnpackedFloat.pack .binary64
        (UnpackedFloat.unpack .binary64 bits.toUInt64.toBitVec)) := rfl
  rw [htoBits, hpack]
  exact Nat.mod_eq_of_lt (by omega)

end Bits

section Signs

/-! A finite number is its magnitude, or the negation of its magnitude. -/

open Float.Model UnpackedFloat

theorem exponent_ne_of_isFinite {b : BitVec 64}
    (h : (UnpackedFloat.unpack .binary64 b).isFinite = true) :
    @unpackExponent .binary64 b ≠ -1#11 := by
  intro he
  unfold UnpackedFloat.unpack at h
  simp only [he, if_true] at h
  split at h <;> cases h

/-- Bits that differ in the sign alone stand for a number and its negation. -/
theorem unpack_eq_neg {b c : BitVec 64} (hmagnitude : c.toNat = b.toNat % 2 ^ 63)
    (hnegative : 2 ^ 63 ≤ b.toNat) :
    UnpackedFloat.unpack .binary64 b = (UnpackedFloat.unpack .binary64 c).neg := by
  have hlt := b.isLt
  have hexponent : @unpackExponent .binary64 b = @unpackExponent .binary64 c := by
    apply BitVec.eq_of_toNat_eq
    rw [toNat_unpackExponent, toNat_unpackExponent, hmagnitude]
    omega
  have hmantissa : @unpackMantissa .binary64 b = @unpackMantissa .binary64 c := by
    apply BitVec.eq_of_toNat_eq
    rw [toNat_unpackMantissa, toNat_unpackMantissa, hmagnitude]
    omega
  have hb : @unpackSign .binary64 b = 1#1 := by
    apply BitVec.eq_of_toNat_eq
    rw [toNat_unpackSign, BitVec.toNat_ofNat]
    omega
  have hc : @unpackSign .binary64 c = 0#1 := by
    apply BitVec.eq_of_toNat_eq
    rw [toNat_unpackSign, BitVec.toNat_ofNat, hmagnitude]
    omega
  unfold UnpackedFloat.unpack
  simp only [hexponent, hmantissa, hb, hc]
  split
  · split <;> rfl
  · split
    · split <;> rfl
    · rfl

theorem magnitudeBits_lt_of_isFinite {x : Float} (h : x.isFinite = true) :
    magnitudeBits x < infinityBits := by
  have hexponent : (@unpackExponent .binary64 x.toBits.toBitVec).toNat ≠ 2 ^ 11 - 1 := fun he =>
    exponent_ne_of_isFinite h (BitVec.eq_of_toNat_eq he)
  have hmagnitude : magnitudeBits x = x.toBits.toBitVec.toNat % 2 ^ 63 := rfl
  have hbits : infinityBits = 2047 * 2 ^ 52 := rfl
  have hlt := x.toBits.toBitVec.isLt
  rw [toNat_unpackExponent] at hexponent
  omega

theorem eq_of_toBits_eq {x y : Float} (h : x.toBits.toBitVec = y.toBits.toBitVec) : x = y := by
  obtain ⟨xBits, _⟩ := x
  obtain ⟨yBits, _⟩ := y
  cases (UInt64.toBitVec_inj.mp h : xBits = yBits)
  rfl

theorem eq_signed_magnitude {x : Float} (h : x.isFinite = true) :
    x = if numberIsNegative x then -Float.ofBits (magnitudeBits x).toUInt64
      else Float.ofBits (magnitudeBits x).toUInt64 := by
  let magnitude := Float.ofBits (magnitudeBits x).toUInt64
  change x = if numberIsNegative x then -magnitude else magnitude
  have hbits : magnitude.toBits.toBitVec.toNat = x.toBits.toBitVec.toNat % 2 ^ 63 :=
    toBits_ofBits (Nat.le_of_lt (magnitudeBits_lt_of_isFinite h))
  apply eq_of_toBits_eq
  by_cases hnegative : 2 ^ 63 ≤ x.toBits.toBitVec.toNat
  · have hsign : numberIsNegative x = true := decide_eq_true hnegative
    have hneg : (-magnitude).toBits.toBitVec = UnpackedFloat.pack .binary64
        (UnpackedFloat.unpack .binary64 magnitude.toBits.toBitVec).neg := rfl
    rw [if_pos hsign, hneg, ← unpack_eq_neg hbits hnegative]
    exact (pack_unpack x.toModel.valid).symm
  · have hsign : ¬ numberIsNegative x = true := fun hsign => hnegative (of_decide_eq_true hsign)
    rw [if_neg hsign]
    apply BitVec.eq_of_toNat_eq
    omega

end Signs

section Decimals

variable (d : Decimal)

theorem Decimal.length_fraction (h : d.places ≠ 0) :
    ((Nat.toDigits 10 (d.units % Nat.pow 10 d.places)).leftpad d.places '0').length = d.places := by
  have hlt : d.units % Nat.pow 10 d.places < 10 ^ d.places :=
    Nat.mod_lt _ (Nat.pow_pos (by decide))
  have hlength := (Nat.length_toDigits_le_iff (by decide) (Nat.pos_of_ne_zero h)).mpr hlt
  rw [List.length_leftpad, Nat.max_eq_left hlength]

theorem Decimal.ofDigits_fraction (h : d.places ≠ 0) :
    Decimal.ofDigits (Nat.toDigits 10 (d.units / Nat.pow 10 d.places))
      ((Nat.toDigits 10 (d.units % Nat.pow 10 d.places)).leftpad d.places '0') = d := by
  have hlength := d.length_fraction h
  have hunits : Nat.ofDigitChars 10
      ((Nat.toDigits 10 (d.units % Nat.pow 10 d.places)).leftpad d.places '0') 0 =
        d.units % Nat.pow 10 d.places := by
    simp [List.leftpad, Nat.ofDigitChars_append]
  rw [Decimal.ofDigits, Nat.ofDigitChars_append, Nat.ofDigitChars_ten_toDigits,
    Nat.ofDigitChars_eq_ofDigitChars_zero, hlength, hunits]
  congr 1
  exact Nat.div_add_mod _ _

/-- A decimal is written with the digits that it is read from. -/
theorem Decimal.exists_digits : ∃ whole fraction : List Char,
    whole ≠ [] ∧ (∀ c ∈ whole, c.isDigit = true) ∧ (∀ c ∈ fraction, c.isDigit = true) ∧
      Decimal.ofDigits whole fraction = d ∧
      d.chars = whole ++ if fraction = [] then [] else '.' :: fraction := by
  have hdigits : ∀ n : Nat, ∀ c ∈ Nat.toDigits 10 n, c.isDigit = true := fun n c hc =>
    Nat.isDigit_of_mem_toDigits (by decide) (by decide) hc
  by_cases h : d.places = 0
  · refine ⟨Nat.toDigits 10 d.units, [], Nat.toDigits_ne_nil, hdigits _, by simp, ?_, ?_⟩
    · obtain ⟨units, places⟩ := d
      simp_all [Decimal.ofDigits]
    · simp [Decimal.chars, h]
  · refine ⟨_, _, Nat.toDigits_ne_nil, hdigits _, ?_, d.ofDigits_fraction h, ?_⟩
    · intro c hc
      rcases List.mem_append.mp hc with hc | hc
      · rw [List.eq_of_mem_replicate hc]
        decide
      · exact hdigits _ c hc
    · have hne : (Nat.toDigits 10 (d.units % Nat.pow 10 d.places)).leftpad d.places '0' ≠ [] := by
        rw [← List.length_pos_iff, d.length_fraction h]
        exact Nat.pos_of_ne_zero h
      rw [Decimal.chars, if_neg h, if_neg hne]

theorem Decimal.isLexeme_chars : IsLexeme .number d.chars := by
  obtain ⟨whole, fraction, hne, hwhole, hfraction, -, hchars⟩ := d.exists_digits
  rw [hchars]
  by_cases h : fraction = []
  · simpa [h] using IsLexeme.integer hne hwhole
  · rw [if_neg h]
    exact .fraction hne hwhole h hfraction

theorem Decimal.numberLiteral_chars : numberLiteral d.chars = .number (numberOfDecimal d) := by
  obtain ⟨whole, fraction, -, hwhole, -, hd, hchars⟩ := d.exists_digits
  have hpoint : ('.').isDigit = false := by decide
  conv => rhs; rw [← hd]
  rw [numberLiteral, hchars, List.takeWhile_append_of_pos hwhole,
    List.dropWhile_append_of_pos hwhole]
  by_cases h : fraction = [] <;> simp [h, hpoint]

end Decimals

section Texts

variable (d : Decimal)

theorem Decimal.nearestBits_le : d.nearestBits ≤ infinityBits :=
  Nat.min_le_left _ _

theorem numberIsNegative_numberOfDecimal : numberIsNegative (numberOfDecimal d) = false := by
  have hle : d.nearestBits < Nat.pow 2 63 := Nat.lt_of_le_of_lt d.nearestBits_le (by decide)
  rw [numberIsNegative, numberOfDecimal, toBits_ofBits d.nearestBits_le]
  simpa using hle

theorem magnitudeBits_numberOfDecimal : magnitudeBits (numberOfDecimal d) = d.nearestBits := by
  rw [magnitudeBits, numberOfDecimal, toBits_ofBits d.nearestBits_le]
  exact Nat.mod_eq_of_lt (Nat.lt_of_le_of_lt d.nearestBits_le (by decide))

/-- The number that decimals above all other numbers stand for. -/
def infinity : Float := Float.ofBits infinityBits.toUInt64

theorem numberText_infinity : numberText infinity = "Infinity" := by
  decide +kernel

/-- The text of a finite number is a lexeme with this number as its value. -/
theorem numberText_of_finite (h : numberOfDecimal d ≠ infinity) :
    IsLexeme .number (numberText (numberOfDecimal d)).toList ∧
      numberLiteral (numberText (numberOfDecimal d)).toList = .number (numberOfDecimal d) := by
  have hne : d.nearestBits ≠ infinityBits := fun hbits => h (by rw [numberOfDecimal, hbits, infinity])
  have hlt : d.nearestBits < infinityBits := Nat.lt_of_le_of_ne d.nearestBits_le hne
  have htext : (numberText (numberOfDecimal d)).toList = (shortestDecimal d.nearestBits).chars := by
    simp [numberText, numberIsNegative_numberOfDecimal, magnitudeBits_numberOfDecimal, hne,
      Nat.not_lt.mpr d.nearestBits_le]
  rw [htext]
  refine ⟨Decimal.isLexeme_chars _, ?_⟩
  rw [Decimal.numberLiteral_chars, numberOfDecimal, nearestBits_shortestDecimal hlt,
    numberOfDecimal]

/-- A finite number is written as a decimal that reads back as its magnitude, with a sign in front if
it is negative. -/
theorem exists_decimal_of_isFinite {x : Float} (h : x.isFinite = true) : ∃ d : Decimal,
    (numberText x).toList = d.chars ∧ x = numberOfDecimal d ∨
      (numberText x).toList = '-' :: d.chars ∧ x = -numberOfDecimal d := by
  have hlt := magnitudeBits_lt_of_isFinite h
  have hx := eq_signed_magnitude h
  have hread : numberOfDecimal (shortestDecimal (magnitudeBits x)) =
      Float.ofBits (magnitudeBits x).toUInt64 := by
    rw [numberOfDecimal, nearestBits_shortestDecimal hlt]
  have htext : (numberText x).toList =
      (if numberIsNegative x then ['-'] else []) ++ (shortestDecimal (magnitudeBits x)).chars := by
    have hne := Nat.ne_of_lt hlt
    have hle := Nat.not_lt.mpr (Nat.le_of_lt hlt)
    cases hsign : numberIsNegative x <;> simp [numberText, hsign, hne, hle]
  refine ⟨shortestDecimal (magnitudeBits x), ?_⟩
  rw [htext, hread]
  by_cases hsign : numberIsNegative x = true
  · exact .inr ⟨by rw [if_pos hsign]; rfl, by rwa [if_pos hsign] at hx⟩
  · exact .inl ⟨by rw [if_neg hsign]; rfl, by rwa [if_neg hsign] at hx⟩

end Texts

end Treewalk
