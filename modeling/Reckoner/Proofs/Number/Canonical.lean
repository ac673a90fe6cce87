/-
  Numbers in canonical form.

  A size `m · 2^e` can be written in many ways, of which at most one fits: either the mantissa has
  all bits, or the exponent is the least one.

  1. **Rounding (`normalize_eq`)** — whatever way a number is written, rounding brings it into the
     way that fits.

  2. **Packing (`unpack_pack_of_fits`)** — packing keeps this way, unless the exponent is too large.

  3. **Order (`compare_size`)** — of two sizes that fit, the one with the larger exponent is the
     larger one.
-/
import Mathlib
import Reckoner.Proofs.Number.ReadBack
import Reckoner.Proofs.Number.Rounding

namespace Reckoner.Number

open Float.Model (Format UnpackedFloat totalExponent)
open Float.Model.UnpackedFloat

/-! ## Sizes with different exponents -/

section
variable (m n : Int) (e d : Int)

theorem two_zpow_eq : (2 : ℚ) ^ e = 2 ^ (e - d).toNat * 2 ^ min e d := by
  rw [← zpow_natCast, ← zpow_add₀ two_ne_zero]
  congr 1
  omega

theorem size_eq : (m : ℚ) * 2 ^ e = (m * 2 ^ (e - d).toNat : Int) * 2 ^ min e d := by
  rw [two_zpow_eq e d]
  push_cast
  ring

/-- Sizes are equal if they are equal at the smaller exponent. -/
theorem size_eq_iff :
    (m : ℚ) * 2 ^ e = n * 2 ^ d ↔ m * 2 ^ (e - d).toNat = n * 2 ^ (d - e).toNat := by
  have hpos : (2 : ℚ) ^ min e d ≠ 0 := zpow_ne_zero _ two_ne_zero
  rw [size_eq m e d, size_eq n d e, min_comm d e, mul_left_inj' hpos, Int.cast_inj]

/-- An integer is a size with the exponent zero. -/
theorem size_zero : (m : ℚ) * 2 ^ (0 : Int) = m := by
  rw [zpow_zero, mul_one]

end

theorem size_pos {m : Nat} (hpos : 0 < m) (e : Int) : (0 : ℚ) < m * 2 ^ e :=
  mul_pos (Nat.cast_pos.2 hpos) (zpow_pos two_pos e)

/-! ## Signs -/

theorem apply_apply (sign : Sign) (n : Int) : sign.apply (sign.apply n) = n := by
  cases sign with
  | positive => rfl
  | negative => exact Int.neg_neg n

theorem natAbs_apply (sign : Sign) (n : Nat) : (sign.apply n).natAbs = n := by
  cases sign with
  | positive => rfl
  | negative => exact (Int.natAbs_neg n).trans (Int.natAbs_natCast n)

/-- An integer is a sign and a natural number. -/
theorem exists_apply (k : Int) : ∃ (sign : Sign) (n : Nat), k = sign.apply n := by
  rcases Int.eq_nat_or_neg k with ⟨n, rfl | rfl⟩
  · exact ⟨.positive, n, rfl⟩
  · exact ⟨.negative, n, rfl⟩

theorem apply_mul (sign : Sign) (n k : Int) : sign.apply (n * k) = sign.apply n * k := by
  cases sign with
  | positive => rfl
  | negative => exact Int.neg_mul_eq_neg_mul n k

theorem apply_neg (sign : Sign) (n : Int) : (-sign).apply n = -sign.apply n := by
  cases sign with
  | positive => rfl
  | negative => exact (Int.neg_neg n).symm

theorem apply_positive_size (m : Nat) (e : Int) :
    ((Sign.apply .positive m : Int) : ℚ) * 2 ^ e = m * 2 ^ e := rfl

theorem apply_negative_size (m : Nat) (e : Int) :
    ((Sign.apply .negative m : Int) : ℚ) * 2 ^ e = -(m * 2 ^ e) := by
  rw [Sign.apply, Int.cast_neg, Int.cast_natCast, neg_mul]

/-! ## Rounding -/

section
variable {mantissa : Nat} {exponent : Int}

/-- Rounding brings a size into its canonical form. -/
theorem round_eq (sign : Sign) (hpos : 0 < mantissa) (hfits : Fits mantissa exponent)
    {n : Nat} {e : Int}
    (h : n * 2 ^ (e - exponent).toNat = mantissa * 2 ^ (exponent - e).toNat) :
    UnpackedFloat.round Format.binary64 sign n e = .finite sign mantissa exponent hpos := by
  have hnpos : 0 < n :=
    Nat.pos_of_mul_pos_right (h ▸ Nat.mul_pos hpos (Nat.two_pow_pos _))
  have hexponent : e - (e - exponent).toNat = exponent - (exponent - e).toNat := by omega
  have htarget : Format.binary64.targetExponent (totalExponent n e) = exponent := by
    rw [← totalExponent_mul_two_pow hnpos (e - exponent).toNat, h, hexponent,
      totalExponent_mul_two_pow hpos, hfits]
  have hround := roundWithAccuracy_of_fits sign hpos hfits (exponent - e).toNat
  rw [UnpackedFloat.round, htarget, decreaseExponent, Nat.shiftLeft_eq]
  show roundWithAccuracy _ _ (n * 2 ^ (e - exponent).toNat) (e - (e - exponent).toNat) _ = _
  rw [h, hexponent, hround]

theorem normalize_apply (sign : Sign) {n : Nat} (hn : 0 < n) (e : Int) (zeroSign : Sign) :
    UnpackedFloat.normalize Format.binary64 (sign.apply n) e zeroSign =
      UnpackedFloat.round Format.binary64 sign n e := by
  cases sign with
  | positive =>
    have hcompare : compare (n : Int) 0 = .gt := compare_gt_iff_gt.2 (Int.natCast_pos.2 hn)
    rw [UnpackedFloat.normalize, Sign.apply, hcompare]
    rfl
  | negative =>
    have hcompare : compare (-n : Int) 0 = .lt :=
      compare_lt_iff_lt.2 (Int.neg_neg_of_pos (Int.natCast_pos.2 hn))
    rw [UnpackedFloat.normalize, Sign.apply, hcompare, Int.neg_neg]
    rfl

/-- **Whatever way a number is written, it is brought into the one form that fits.** -/
theorem normalize_eq (sign : Sign) (hpos : 0 < mantissa) (hfits : Fits mantissa exponent)
    {n e : Int} (zeroSign : Sign) (h : (n : ℚ) * 2 ^ e = sign.apply mantissa * 2 ^ exponent) :
    UnpackedFloat.normalize Format.binary64 n e zeroSign = .finite sign mantissa exponent hpos := by
  have hsize : sign.apply n * 2 ^ (e - exponent).toNat = mantissa * 2 ^ (exponent - e).toNat := by
    rw [← apply_mul, (size_eq_iff _ _ _ _).1 h, apply_mul, apply_apply]
  have hnpos : 0 < sign.apply n := by
    have hright : (0 : Int) < mantissa * 2 ^ (exponent - e).toNat := by positivity
    rw [← hsize] at hright
    exact pos_of_mul_pos_left hright (by positivity)
  obtain ⟨k, hk⟩ := Int.eq_ofNat_of_zero_le hnpos.le
  have hn : n = sign.apply k := by rw [← hk, apply_apply]
  rw [hk] at hsize hnpos
  rw [hn, normalize_apply sign (Int.natCast_pos.1 hnpos)]
  exact round_eq sign hpos hfits (by exact_mod_cast hsize)

/-! ## Packing -/

/-- A number with all bits is packed with its exponent, and without its first bit. -/
theorem unpack_packComponents_normal (sign : Sign) {m b : Nat} (hlow : 2 ^ 52 ≤ m)
    (hhigh : m < 2 ^ 53) (hb : 0 < b) (hb' : b < 2047) (hpos : 0 < m) :
    unpack Format.binary64
        (packComponents Format.binary64 sign (BitVec.ofNat 11 b) (BitVec.ofNat 52 m)) =
      .finite sign m (b - 1075) hpos := by
  have hexponent : (BitVec.ofNat 11 b).toNat = b := Nat.mod_eq_of_lt (by omega)
  have hmantissa : (1#1 ++ BitVec.ofNat 52 m).toNat = m := by
    rw [BitVec.toNat_append, ← Nat.shiftLeft_add_eq_or_of_lt (BitVec.isLt _), BitVec.toNat_ofNat]
    show 1 <<< 52 + m % 2 ^ 52 = m
    omega
  have hspecial : BitVec.ofNat 11 b ≠ -1#11 := by
    intro heq
    rw [heq] at hexponent
    exact absurd hexponent.symm (by show ¬ b = 2047; omega)
  have hleast : BitVec.ofNat 11 b ≠ 0#11 := by
    intro heq
    rw [heq] at hexponent
    exact hb.ne hexponent
  rw [unpack]
  simp only [unpackMantissa_packComponents, unpackExponent_packComponents,
    unpackSign_packComponents, Sign.ofBitVec_toBitVec]
  rw [if_neg hspecial, if_neg hleast, UnpackedFloat.finite.injEq]
  exact ⟨rfl, hmantissa, by rw [hexponent]; rfl⟩

/-- A number without all bits is packed with the least exponent. -/
theorem unpack_packComponents_subnormal (sign : Sign) {m : Nat} (hhigh : m < 2 ^ 52)
    (hpos : 0 < m) :
    unpack Format.binary64 (packComponents Format.binary64 sign 0#11 (BitVec.ofNat 52 m)) =
      .finite sign m (-1074) hpos := by
  have hmantissa : (BitVec.ofNat 52 m).toNat = m := Nat.mod_eq_of_lt hhigh
  have hzero : BitVec.ofNat 52 m ≠ 0#52 := by
    intro heq
    rw [heq] at hmantissa
    exact hpos.ne hmantissa
  rw [unpack]
  simp only [unpackMantissa_packComponents, unpackExponent_packComponents,
    unpackSign_packComponents, Sign.ofBitVec_toBitVec]
  rw [if_neg (by decide), if_pos trivial, dif_neg hzero, UnpackedFloat.finite.injEq]
  exact ⟨rfl, hmantissa, rfl⟩

/-- Numbers in canonical form keep it when they are packed, unless the exponent is too large. -/
theorem unpack_pack_of_fits (sign : Sign) (hpos : 0 < mantissa) (hfits : Fits mantissa exponent)
    (hexponent : exponent ≤ 971) :
    (Float.Model.pack (.finite sign mantissa exponent hpos)).unpack =
      .finite sign mantissa exponent hpos := by
  show unpack Format.binary64 (pack Format.binary64 _) = _
  have hlow := hfits.le_exponent
  obtain ⟨b, rfl⟩ : ∃ b : Nat, exponent = b - 1075 := ⟨(exponent + 1075).toNat, by omega⟩
  have hbiased : ((b : Int) - 1075 + Format.binary64.exponentBias +
      Format.binary64.mantissaBitsWithoutImplicit).toNat = b := by
    show ((b : Int) - 1075 + 1023 + 52).toNat = b
    omega
  have hfinite : ¬ 2 ^ Format.binary64.exponentBits ≤ b + 1 := by
    show ¬ 2 ^ 11 ≤ b + 1
    omega
  rw [pack, hbiased, if_neg hfinite]
  split
  · next hbits =>
    have hmantissa := (Nat.log2_eq_iff hpos.ne').1 (Nat.succ.inj hbits)
    exact unpack_packComponents_normal sign hmantissa.1 hmantissa.2 (by omega) (by omega) hpos
  · next hbits =>
    have hleast := hfits.log2_eq_or.resolve_left fun hlog => hbits (congrArg (· + 1) hlog)
    have hmantissa : mantissa < 2 ^ 52 := by
      refine (Nat.log2_lt hpos.ne').1 (Nat.lt_of_le_of_ne hfits.log2_le fun hlog => ?_)
      exact hbits (congrArg (· + 1) hlog)
    have hunpack := unpack_packComponents_subnormal sign hmantissa hpos
    rw [← hleast] at hunpack
    exact hunpack

end

/-! ## Order -/

/-- Of two sizes in canonical form, the one with the larger exponent is the larger one. -/
theorem size_lt_of_exponent_lt {m m' : Nat} {e e' : Int} (hpos' : 0 < m') (hfits : Fits m e)
    (hfits' : Fits m' e') (he : e < e') : (m : ℚ) * 2 ^ e < m' * 2 ^ e' := by
  have hlow := hfits.le_exponent
  have hbits : m'.log2 = 52 := hfits'.log2_eq_or.resolve_right (by omega)
  have hm : (m : ℚ) < 2 ^ 53 := by exact_mod_cast hfits.mantissa_lt
  have hm' : (2 : ℚ) ^ 52 ≤ m' := by exact_mod_cast ((Nat.log2_eq_iff hpos'.ne').1 hbits).1
  have he' : (2 : ℚ) ^ (e + 1) ≤ 2 ^ e' := zpow_le_zpow_right₀ one_le_two (by omega)
  calc (m : ℚ) * 2 ^ e < 2 ^ 53 * 2 ^ e := by gcongr
    _ = 2 ^ 52 * 2 ^ (e + 1) := by rw [zpow_add_one₀ two_ne_zero]; ring
    _ ≤ m' * 2 ^ e' := by gcongr

/-- Sizes in canonical form are compared by their exponents, and then by their mantissas. -/
theorem compare_size {m m' : Nat} {e e' : Int} (hpos : 0 < m) (hpos' : 0 < m') (hfits : Fits m e)
    (hfits' : Fits m' e') :
    (compare e e').then (compare m m') = compare ((m : ℚ) * 2 ^ e) (m' * 2 ^ e') := by
  rcases lt_trichotomy e e' with he | rfl | he
  · rw [compare_lt_iff_lt.2 he, compare_lt_iff_lt.2 (size_lt_of_exponent_lt hpos' hfits hfits' he)]
    rfl
  · have hscale : (0 : ℚ) < 2 ^ e := zpow_pos two_pos _
    have hmono : StrictMono fun n : Nat => (n : ℚ) * 2 ^ e := Nat.strictMono_cast.mul_const hscale
    rw [compare_eq_iff_eq.2 rfl, ← cmp_eq_compare m, ← cmp_eq_compare ((m : ℚ) * 2 ^ e)]
    exact (hmono.cmp_map_eq m m').symm
  · rw [compare_gt_iff_gt.2 he, compare_gt_iff_gt.2 (size_lt_of_exponent_lt hpos hfits' hfits he)]
    rfl

end Reckoner.Number
