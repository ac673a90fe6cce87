/-
  Rounding that changes nothing.

  A decimal is read by one multiplication or one division whose result is rounded.  A decimal that
  is exactly a float has to come out as this float, so the rounding must find nothing to round.

  1. **Fit (`Fits`)** — `m · 2^e` is in the form that rounding aims at.  What rounding shifts out
     of `m · 2^k` at the exponent `e - k` are then `k` zeros (`roundWithAccuracy_of_fits`).

  2. **The exact decimal (`Equals.ofBinary`, `Equals.trimFraction`)** — it equals its float, also
     without the zeros at its end.

  3. **Reading (`Equals.toFloat_eq`)** — a decimal that equals `m · 2^e` is read as that float.  An
     integer is multiplied by a power of two; for a fraction, the quotient is taken at an exponent
     so low that it is exact (`Equals.divisionExponent_le`).
-/
import Mathlib
import Reckoner.Number.Shortest

namespace Reckoner

open Float.Model (Format totalExponent)
open Float.Model.UnpackedFloat

namespace Number

/-! ## Rounding -/

/-- The size `m · 2^e` is in the form that rounding aims at. -/
def Fits (mantissa : Nat) (exponent : Int) : Prop :=
  Format.binary64.targetExponent (totalExponent mantissa exponent) = exponent

section
variable {mantissa : Nat} {exponent : Int}

theorem Fits.log2_le (h : Fits mantissa exponent) : mantissa.log2 ≤ 52 := by
  simp only [Fits, totalExponent, Format.targetExponent, Format.mantissaBits] at h
  omega

theorem Fits.le_exponent (h : Fits mantissa exponent) : -1074 ≤ exponent := by
  simp only [Fits, totalExponent, Format.targetExponent, Format.minExponent,
    Format.mantissaBits] at h
  omega

theorem Fits.mantissa_lt (h : Fits mantissa exponent) : mantissa < 2 ^ 53 := by
  rcases Nat.eq_zero_or_pos mantissa with rfl | hpos
  · decide
  · exact (Nat.log2_lt hpos.ne').1 (Nat.lt_succ_of_le h.log2_le)

/-- A size in canonical form has all bits, or the least exponent. -/
theorem Fits.log2_eq_or (h : Fits mantissa exponent) : mantissa.log2 = 52 ∨ exponent = -1074 := by
  simp only [Fits, totalExponent, Format.targetExponent, Format.minExponent,
    Format.mantissaBits] at h
  omega

/-- Shifting out zeros leaves nothing behind. -/
theorem shiftRight_of_mul_two_pow (mantissa k : Nat) :
    (⟨mantissa * 2 ^ k, false, false⟩ : ExtendedMantissa) >>> k = ⟨mantissa, false, false⟩ := by
  show k.repeat ExtendedMantissa.shiftRightOne _ = _
  induction k generalizing mantissa with
  | zero => simp [Nat.repeat]
  | succ k ih =>
    have hsplit : mantissa * 2 ^ (k + 1) = mantissa * 2 * 2 ^ k := by ring
    rw [Nat.repeat, hsplit, ih]
    simp [ExtendedMantissa.shiftRightOne]

theorem log2_mul_two_pow (hpos : 0 < mantissa) (k : Nat) :
    (mantissa * 2 ^ k).log2 = mantissa.log2 + k := by
  induction k with
  | zero => simp
  | succ k ih =>
    have hne : mantissa * 2 ^ k ≠ 0 := (Nat.mul_pos hpos (Nat.two_pow_pos k)).ne'
    have hsplit : mantissa * 2 ^ (k + 1) = 2 * (mantissa * 2 ^ k) := by ring
    rw [hsplit, Nat.log2_two_mul hne, ih]
    omega

/-- Writing a size with more bits leaves its first bit in its place. -/
theorem totalExponent_mul_two_pow (hpos : 0 < mantissa) (k : Nat) :
    totalExponent (mantissa * 2 ^ k) (exponent - k) = totalExponent mantissa exponent := by
  rw [totalExponent, totalExponent, log2_mul_two_pow hpos]
  omega

theorem shiftToTargetExponent_of_fits (hpos : 0 < mantissa) (h : Fits mantissa exponent)
    (k : Nat) :
    shiftToTargetExponent Format.binary64 (mantissa * 2 ^ k) (exponent - k) .exact =
      (⟨mantissa, false, false⟩, exponent) := by
  have hshift : (exponent - (exponent - (k : Int))).toNat = k := by omega
  rw [shiftToTargetExponent, totalExponent_mul_two_pow hpos, h, shiftToExponent, hshift,
    ExtendedMantissa.ofMantissaAndAccuracy]
  simp only [shiftRight_of_mul_two_pow, Int.sub_add_cancel]

/-- **Nothing is rounded** where `m · 2^e` is written with more bits than it needs. -/
theorem roundWithAccuracy_of_fits (sign : Sign) (hpos : 0 < mantissa)
    (h : Fits mantissa exponent) (k : Nat) :
    roundWithAccuracy Format.binary64 sign (mantissa * 2 ^ k) (exponent - k) .exact =
      .finite sign mantissa exponent hpos := by
  have hagain := shiftToTargetExponent_of_fits hpos h 0
  simp only [pow_zero, Nat.mul_one, Nat.cast_zero, Int.sub_zero] at hagain
  simp only [roundWithAccuracy, shiftToTargetExponent_of_fits hpos h k,
    ExtendedMantissa.roundedMantissa, ExtendedMantissa.accuracy, Accuracy.roundToNearestEven,
    hagain, hpos.ne', dif_neg, not_false_eq_true]

end

end Number

namespace Decimal

open Number (Fits roundWithAccuracy_of_fits)

/-- A decimal is exactly `m · 2^e`. -/
def Equals (d : Decimal) (mantissa : Nat) (exponent : Int) : Prop :=
  d.units * 2 ^ (-exponent).toNat = mantissa * 2 ^ exponent.toNat * 10 ^ d.places

section
variable {d : Decimal} {mantissa : Nat} {exponent : Int}

/-! ## The exact decimal -/

theorem Equals.ofBinary (mantissa : Nat) (exponent : Int) :
    (ofBinary mantissa exponent).Equals mantissa exponent := by
  have hten : (10 : Nat) ^ (-exponent).toNat = 5 ^ (-exponent).toNat * 2 ^ (-exponent).toNat := by
    rw [← Nat.mul_pow]
  show mantissa * 2 ^ exponent.toNat * 5 ^ (-exponent).toNat * 2 ^ (-exponent).toNat =
    mantissa * 2 ^ exponent.toNat * 10 ^ (-exponent).toNat
  rw [hten, Nat.mul_assoc]

/-- Zeros at the end of a fraction do not count. -/
theorem Equals.trimFraction {units places : Nat} (h : Equals ⟨units, places⟩ mantissa exponent) :
    (trimFraction units places).Equals mantissa exponent ∧
      (Decimal.trimFraction units places).places ≤ places := by
  induction places generalizing units with
  | zero => exact ⟨h, Nat.le_refl 0⟩
  | succ places ih =>
    rw [Decimal.trimFraction]
    split
    · next hzero =>
      have hunits : units = units / 10 * 10 := by omega
      have hrest : Equals ⟨units / 10, places⟩ mantissa exponent := by
        refine Nat.eq_of_mul_eq_mul_right (show 0 < 10 from by decide) ?_
        calc units / 10 * 2 ^ (-exponent).toNat * 10
            = units / 10 * 10 * 2 ^ (-exponent).toNat := by ring
          _ = units * 2 ^ (-exponent).toNat := by rw [← hunits]
          _ = mantissa * 2 ^ exponent.toNat * 10 ^ (places + 1) := h
          _ = mantissa * 2 ^ exponent.toNat * 10 ^ places * 10 := by ring
      obtain ⟨hequals, hle⟩ := ih hrest
      exact ⟨hequals, by omega⟩
    · exact ⟨h, Nat.le_refl _⟩

/-! ## Reading -/

/-- The units of a decimal that is `m · 2^e`, with more bits. -/
theorem Equals.scaled (h : d.Equals mantissa exponent) (more : Nat) (hmore : 0 ≤ exponent + more) :
    d.units * 2 ^ more = mantissa * 2 ^ (exponent + more).toNat * 10 ^ d.places := by
  have hbits : exponent.toNat + more = (exponent + more).toNat + (-exponent).toNat := by omega
  refine Nat.eq_of_mul_eq_mul_right (Nat.two_pow_pos (-exponent).toNat) ?_
  calc d.units * 2 ^ more * 2 ^ (-exponent).toNat
      = d.units * 2 ^ (-exponent).toNat * 2 ^ more := by ring
    _ = mantissa * 2 ^ exponent.toNat * 10 ^ d.places * 2 ^ more := by rw [h]
    _ = mantissa * 10 ^ d.places * 2 ^ (exponent.toNat + more) := by rw [pow_add]; ring
    _ = mantissa * 2 ^ (exponent + more).toNat * 10 ^ d.places * 2 ^ (-exponent).toNat := by
      rw [hbits, pow_add]; ring

theorem Equals.units_pos (h : d.Equals mantissa exponent) (hpos : 0 < mantissa) :
    0 < d.units := by
  have hright : 0 < mantissa * 2 ^ exponent.toNat * 10 ^ d.places := by positivity
  rw [← h] at hright
  exact Nat.pos_of_mul_pos_right hright

/-- An integer that is `m · 2^e` has no bits below those of `m`. -/
theorem Equals.le_exponent (h : d.Equals mantissa exponent) (hpos : 0 < mantissa)
    (hfits : Fits mantissa exponent) (hplaces : d.places = 0) : 0 ≤ exponent + 53 := by
  have hmantissa := hfits.mantissa_lt
  by_contra hlow
  have hright : exponent.toNat = 0 := by omega
  have hleft : 2 ^ 53 ≤ 2 ^ (-exponent).toNat := Nat.pow_le_pow_right (by decide) (by omega)
  have hunits := Nat.le_mul_of_pos_left (2 ^ (-exponent).toNat) (h.units_pos hpos)
  rw [h, hright, hplaces] at hunits
  omega

/-- **The quotient is exact.**  The exponent at which a division takes its quotient is low enough
    for every bit of `m · 2^e`. -/
theorem Equals.divisionExponent_le (h : d.Equals mantissa exponent) (hpos : 0 < mantissa)
    (hfits : Fits mantissa exponent) :
    Format.binary64.targetExponent (totalExponent d.units 0 - totalExponent (10 ^ d.places) 0) ≤
      exponent := by
  have hunits : 2 ^ d.units.log2 ≤ d.units := Nat.log2_self_le (h.units_pos hpos).ne'
  have hmantissa : mantissa < 2 ^ (mantissa.log2 + 1) := Nat.lt_log2_self
  have hten : 10 ^ d.places < 2 ^ ((10 ^ d.places).log2 + 1) := Nat.lt_log2_self
  have hpow : 2 ^ (d.units.log2 + (-exponent).toNat) <
      2 ^ (mantissa.log2 + 1 + exponent.toNat + ((10 ^ d.places).log2 + 1)) := by
    have hright : mantissa * 2 ^ exponent.toNat * 10 ^ d.places <
        2 ^ (mantissa.log2 + 1) * 2 ^ exponent.toNat * 2 ^ ((10 ^ d.places).log2 + 1) := by
      gcongr
    rw [← h] at hright
    rw [pow_add, pow_add, pow_add]
    exact Nat.lt_of_le_of_lt (Nat.mul_le_mul_right _ hunits) hright
  have hlog := (Nat.pow_lt_pow_iff_right (show 1 < 2 from by decide)).1 hpow
  have hbits := hfits.log2_le
  have hlow := hfits.le_exponent
  simp only [totalExponent, Format.targetExponent, Format.minExponent, Format.mantissaBits]
  omega

/-- An integer that is a float is read without rounding. -/
theorem Equals.mul_eq (h : d.Equals mantissa exponent) (hpos : 0 < mantissa)
    (hfits : Fits mantissa exponent) (hplaces : d.places = 0)
    (hleft : 0 < d.units <<< 53) (hright : 0 < 10 ^ (-(d.places : Int)).toNat) :
    mul Format.binary64 (.finite .positive (d.units <<< 53) (-53) hleft)
        (.finite .positive (10 ^ (-(d.places : Int)).toNat) 0 hright) =
      .finite .positive mantissa exponent hpos := by
  have hlow := h.le_exponent hpos hfits hplaces
  have hbits : d.units <<< 53 * 10 ^ (-(d.places : Int)).toNat =
      mantissa * 2 ^ (exponent + (53 : Nat)).toNat := by
    rw [Nat.shiftLeft_eq, h.scaled 53 hlow, hplaces]
    simp
  have hexponent : (-53 : Int) + 0 = exponent - ((exponent + (53 : Nat)).toNat : Nat) := by omega
  rw [Float.Model.UnpackedFloat.mul, hbits, hexponent]
  exact roundWithAccuracy_of_fits _ hpos hfits _

/-- A fraction that is a float is read without rounding. -/
theorem Equals.div_eq (h : d.Equals mantissa exponent) (hpos : 0 < mantissa)
    (hfits : Fits mantissa exponent) (hleft : 0 < d.units) (hright : 0 < 10 ^ d.places) :
    div Format.binary64 (.finite .positive d.units 0 hleft)
        (.finite .positive (10 ^ d.places) 0 hright) =
      .finite .positive mantissa exponent hpos := by
  have hle := h.divisionExponent_le hpos hfits
  -- the exponent of the quotient, how far the dividend is shifted for it, and the zeros that the
  -- quotient then has behind the mantissa
  generalize htarget : min ((0 : Int) - 0) (Format.binary64.targetExponent
    (totalExponent d.units 0 - totalExponent (10 ^ d.places) 0)) = target
  obtain ⟨more, hmore⟩ : ∃ more : Nat, (0 - 0 - target).toNat = more := ⟨_, rfl⟩
  obtain ⟨zeros, hzeros⟩ : ∃ zeros : Nat, (exponent + more).toNat = zeros := ⟨_, rfl⟩
  have hexponent : target = exponent - zeros := by omega
  have hscaled := h.scaled more (by omega)
  rw [hzeros] at hscaled
  have hquotient : mantissa * 2 ^ zeros * 10 ^ d.places / 10 ^ d.places = mantissa * 2 ^ zeros :=
    Nat.mul_div_cancel _ hright
  have hrest : mantissa * 2 ^ zeros * 10 ^ d.places % 10 ^ d.places = 0 :=
    Nat.mul_mod_left _ _
  simp only [Float.Model.UnpackedFloat.div, divCore, htarget, hmore, Nat.shiftLeft_eq, hscaled,
    hquotient, hrest, accuracyOfFraction, if_true]
  rw [hexponent]
  exact roundWithAccuracy_of_fits _ hpos hfits zeros

/-- **A decimal that is a float is read as this float.** -/
theorem Equals.toFloat_eq (h : d.Equals mantissa exponent) (hpos : 0 < mantissa)
    (hfits : Fits mantissa exponent) (hplaces : d.places ≤ 1074) :
    d.toFloat = .ofModel (.pack (.finite .positive mantissa exponent hpos)) := by
  have hunits := h.units_pos hpos
  suffices hread : Float.Model.UnpackedFloat.ofScientific Format.binary64 d.units
      (-(d.places : Int)) = .finite .positive mantissa exponent hpos by
    rw [Decimal.toFloat, Float.Model.ofScientific, hread]
  -- the powers of ten that reading refuses to compute are far off
  have hnotLarge : ¬ -(d.places : Int) > 2 ^ Format.binary64.exponentBits := by
    simp only [gt_iff_lt, not_lt]
    omega
  have hnotSmall :
      ¬ -(d.places : Int) < -(2 ^ Format.binary64.exponentBits + (d.units.log2 : Int)) := by
    simp only [not_lt]
    omega
  rw [Float.Model.UnpackedFloat.ofScientific, dif_neg hunits.ne', if_neg hnotLarge,
    if_neg hnotSmall]
  split
  · next hinteger => exact h.mul_eq hpos hfits (by omega) _ _
  · simp only [Int.neg_neg, Int.toNat_natCast]
    exact h.div_eq hpos hfits _ _

/-- **The fewest digits read back.** -/
theorem toFloat_shortest (hpos : 0 < mantissa) (hfits : Fits mantissa exponent) :
    (shortest mantissa exponent hpos).toFloat =
      .ofModel (.pack (.finite .positive mantissa exponent hpos)) := by
  obtain ⟨hequals, hle⟩ := (Equals.ofBinary mantissa exponent).trimFraction
  have hplaces : (ofBinary mantissa exponent).places ≤ 1074 := by
    have hlow := hfits.le_exponent
    show (-exponent).toNat ≤ 1074
    omega
  have hexact : (ofBinary mantissa exponent).trim.toFloat =
      .ofModel (.pack (.finite .positive mantissa exponent hpos)) :=
    hequals.toFloat_eq hpos hfits (Nat.le_trans hle hplaces)
  have hpasses := @passes_fewestDigits
    (fun short => short.toFloat = .ofModel (.pack (.finite .positive mantissa exponent hpos)))
    (ofBinary mantissa exponent) (decide_eq_true hexact)
  exact of_decide_eq_true hpasses

end

end Decimal

end Reckoner
