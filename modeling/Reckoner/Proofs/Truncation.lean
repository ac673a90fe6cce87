/-
  Remainders and even numbers, taken on floats.

  `Arithmetic.remainder` and `Number.isEvenInteger` compute with the integers behind floats.  Floats
  also have operations of their own for this: the integer part, the fraction, and the remainder.
  These lead to the same results, for all floats.

  1. **The operations (`truncate`, `fraction`, `modulo`)** — defined on the parts of a float.  An
     integer part has the sign of the float and a remainder that of the dividend, so either may be
     the negative zero.

  2. **The crux (`rational?_modulo`)** — a remainder is never rounded.  Counted in the smaller of
     the two powers of two it is a remainder of integers, at most the one and less than the other,
     and one of the two is below `2^53`.  So the fraction is not rounded either, which is the
     remainder by one (`rational?_fraction`).

  3. **Both ways agree (`isEvenInteger_eq`, `remainder_eq`)** — an even integer has no fraction and
     leaves no remainder by two; and the remainder of the integer parts is that of the integers,
     once zero is added to it to turn the negative zero into the other one.
-/
import Mathlib
import Reckoner.Proofs.Remainder
import Reckoner.Proofs.Roots

namespace Reckoner

namespace Number

open Float.Model (Format UnpackedFloat)
open Float.Model.UnpackedFloat (Sign)

/-! ## The operations -/

/-- The integer part of a float, toward zero.  A zero, an infinity or not-a-number is its own. -/
def truncate (x : Float) : Float :=
  match x.toModel.unpack with
  | .finite sign m e _ =>
    .ofModel (.pack (.normalize Format.binary64 (sign.apply (wholePart m e)) 0 sign))
  | _ => x

/-- What is left of a float without its integer part. -/
def fraction (x : Float) : Float := x - truncate x

/-- The remainder of a division that is cut off toward zero.  An infinite divisor leaves the
    dividend; an infinite dividend and a divisor that is zero leave not-a-number. -/
def modulo (x y : Float) : Float :=
  match x.toModel.unpack, y.toModel.unpack with
  | .finite sign m e _, .finite sign' m' e' _ =>
    .ofModel (.pack (.normalize Format.binary64
      ((sign.apply m * 2 ^ (e - e').toNat).tmod (sign'.apply m' * 2 ^ (e' - e).toNat))
      (min e e') sign))
  | .finite .., .infinity _ | .zero _, .infinity _ | .zero _, .finite .. => x
  | _, _ => notANumber

variable {x y : Float} {a b q : ℚ}

/-! ## Integer parts -/

/-- **Cutting off is exact.** -/
theorem rational?_truncate (h : rational? x = some q) :
    rational? (truncate x) = some (truncated q : ℚ) := by
  have hfloat := (shifted_truncated h).rational?_ofInteger
  cases represents_of_rational? h with
  | zero sign hparts =>
    rw [truncate, hparts]
    simpa [truncated] using h
  | @finite sign m e hpos hfits hexponent hparts =>
    rw [truncate, hparts]
    rw [truncated_size, ← size_zero] at hfloat ⊢
    exact rational?_normalize hfloat sign

theorem truncate_of_none (h : rational? x = none) : truncate x = x := by
  rcases exists_infinity_or_notANumber h with ⟨sign, hparts⟩ | hparts
  · rw [truncate, hparts]
  · rw [truncate, hparts]

/-- An integer part is zero if it is that of a number and zero there. -/
theorem truncate_beq_zero_iff :
    (truncate x == 0) = true ↔ ∃ q, rational? x = some q ∧ truncated q = 0 := by
  rw [beq_iff_rational? rational?_zero]
  cases hx : rational? x with
  | none => simp [truncate_of_none hx, hx]
  | some q => simp [rational?_truncate hx]

/-! ## Remainders -/

theorem truncated_neg (q : ℚ) : truncated (-q) = -truncated q := by
  rw [truncated, truncated]
  rcases lt_trichotomy q 0 with h | rfl | h
  · rw [if_pos (neg_pos.2 h).le, if_neg h.not_ge, Int.floor_neg]
  · simp
  · rw [if_neg (neg_neg_of_pos h).not_ge, if_pos h.le, Int.ceil_neg]

theorem truncated_natCast_div (n d : Nat) : truncated ((n : ℚ) / d) = (n / d : Nat) := by
  rw [truncated, if_pos (by positivity), Rat.floor_natCast_div_natCast, Int.natCast_ediv]

/-- The integer part of a quotient of integers. -/
theorem truncated_div (n d : Int) : truncated ((n : ℚ) / d) = n.tdiv d := by
  obtain ⟨sign, m, rfl⟩ := exists_apply n
  obtain ⟨sign', m', rfl⟩ := exists_apply d
  have hdiv := truncated_natCast_div m m'
  cases sign <;> cases sign' <;>
    simp [UnpackedFloat.Sign.apply, neg_div, div_neg, truncated_neg, hdiv]

theorem sub_mul_truncated (n d : Int) :
    (n : ℚ) - d * truncated ((n : ℚ) / d) = (n.tmod d : Int) := by
  rw [truncated_div, Int.tmod_def]
  push_cast
  rfl

/-- Two numbers that are counted in the same power of two. -/
theorem sub_mul_truncated_size (n d j : Int) :
    (n : ℚ) * 2 ^ j - d * 2 ^ j * truncated (n * 2 ^ j / (d * 2 ^ j)) =
      (n.tmod d : Int) * 2 ^ j := by
  rw [mul_div_mul_right _ _ (zpow_ne_zero j two_ne_zero), ← sub_mul_truncated]
  ring

/-- Counted in the smaller power of two, one of two floats is below `2^53`. -/
theorem natAbs_lt_or_lt (sign sign' : Sign) {m m' : Nat} (e e' : Int) (hm : m < 2 ^ 53)
    (hm' : m' < 2 ^ 53) :
    (sign.apply m * 2 ^ (e - e').toNat).natAbs < 2 ^ 53 ∨
      (sign'.apply m' * 2 ^ (e' - e).toNat).natAbs < 2 ^ 53 := by
  rcases le_total e e' with he | he
  · have hzero : (e - e').toNat = 0 := by omega
    left
    rwa [hzero, pow_zero, mul_one, natAbs_apply]
  · have hzero : (e' - e).toNat = 0 := by omega
    right
    rwa [hzero, pow_zero, mul_one, natAbs_apply]

/-- **Remainders are exact.** -/
theorem rational?_modulo (hx : rational? x = some a) (hy : rational? y = some b) (hb : b ≠ 0) :
    rational? (modulo x y) = some (a - b * truncated (a / b)) := by
  cases represents_of_rational? hy with
  | zero _ _ => exact (hb rfl).elim
  | @finite sign' m' e' hpos' hfits' hexponent' hparts' =>
    cases represents_of_rational? hx with
    | zero sign hparts =>
      rw [modulo, hparts, hparts']
      simpa [truncated] using hx
    | @finite sign m e hpos hfits hexponent hparts =>
      rw [size_eq _ e' e, min_comm e' e] at hb
      have hd : sign'.apply m' * 2 ^ (e' - e).toNat ≠ 0 :=
        Int.cast_ne_zero.1 (left_ne_zero_of_mul hb)
      have hsmall := natAbs_tmod_lt hd
        (natAbs_lt_or_lt sign sign' e e' hfits.mantissa_lt hfits'.mantissa_lt)
      have hlow := le_min hfits.le_exponent hfits'.le_exponent
      obtain ⟨z, hz⟩ := exists_rational? hsmall hlow ((min_le_left e e').trans hexponent)
      rw [modulo, hparts, hparts', size_eq _ e e', size_eq _ e' e, min_comm e' e,
        sub_mul_truncated_size]
      exact rational?_normalize hz sign

example : modulo (-5.5) 2 = -1.5 ∧ modulo (-4) 2 = -0 := by decide +kernel

/-- **Fractions are exact.**  The fraction is the remainder by one, so it is a float. -/
theorem rational?_fraction (h : rational? x = some q) :
    rational? (fraction x) = some (q - truncated q) := by
  have hmodulo := rational?_modulo h rational?_one one_ne_zero
  rw [one_mul, div_one] at hmodulo
  exact rational?_sub h (rational?_truncate h) hmodulo

theorem modulo_of_none (h : rational? x = none) (y : Float) : modulo x y = notANumber := by
  rcases exists_infinity_or_notANumber h with ⟨sign, hparts⟩ | hparts
  · rw [modulo, hparts]
  · rw [modulo, hparts]

theorem modulo_of_some (hx : rational? x = some a) (hy : rational? y = none) :
    modulo x y = if y.isInf then x else notANumber := by
  have hinfinite : y.isInf = y.toModel.unpack.isInf := rfl
  rw [hinfinite, modulo]
  rcases exists_infinity_or_notANumber hy with ⟨sign', hparts'⟩ | hparts'
  · cases represents_of_rational? hx with
    | zero sign hparts => rw [hparts, hparts']; rfl
    | finite sign hpos hfits hexponent hparts => rw [hparts, hparts']; rfl
  · rw [hparts']
    cases x.toModel.unpack <;> rfl

/-! ## Both ways agree -/

/-- **An even integer** has no fraction and leaves no remainder by two. -/
theorem isEvenInteger_eq (x : Float) :
    isEvenInteger x = (fraction x == 0 && modulo x 2 == 0) := by
  rw [Bool.eq_iff_iff, Bool.and_eq_true, beq_iff_rational? rational?_zero,
    beq_iff_rational? rational?_zero, isEvenInteger_iff, IsEven]
  cases hx : rational? x with
  | none =>
    refine iff_of_false (fun ⟨k, hk⟩ => nomatch hk) fun h => ?_
    rw [modulo_of_none hx] at h
    exact absurd h.2 (by decide +kernel)
  | some q =>
    rw [rational?_fraction hx, rational?_modulo hx rational?_two two_ne_zero]
    simp only [Option.some.injEq, sub_eq_zero]
    constructor
    · rintro ⟨k, rfl⟩
      have hhalf : (2 * k : ℚ) / 2 = k := mul_div_cancel_left₀ _ two_ne_zero
      have hinteger : (2 * k : ℚ) = (2 * k : Int) := by push_cast; rfl
      rw [hhalf, truncated_intCast, hinteger, truncated_intCast]
      exact ⟨rfl, rfl⟩
    · rintro ⟨-, hdouble⟩
      exact ⟨_, hdouble⟩

/-- Adding zero to an integer changes the negative zero and nothing else. -/
theorem add_zero_eq {k : Int} (h : rational? x = some (k : ℚ)) : x + 0 = ofInteger k := by
  by_cases hk : k = 0
  · rw [hk, Int.cast_zero, ← beq_iff_rational? rational?_zero, beq_zero_iff] at h
    rw [hk]
    rcases h with rfl | rfl <;> decide +kernel
  · have hadd : x + 0 =
        .ofModel (.pack (.add Format.binary64 x.toModel.unpack (.zero .positive))) := rfl
    have hne : (k : ℚ) ≠ 0 := Int.cast_ne_zero.2 hk
    rw [ofInteger_eq h hk, hadd]
    generalize (k : ℚ) = q at h hne
    cases represents_of_rational? h with
    | zero _ _ => exact (hne rfl).elim
    | finite sign hpos hfits hexponent hparts =>
      have hpacked := ofModel_pack_unpack x
      rw [hparts] at hpacked ⊢
      exact hpacked

end Number

namespace Arithmetic

open Number

/-- **The remainder of integer parts** is refused if the divisor's is zero.  Otherwise it is that of
    the two floats, with zero added to it. -/
theorem remainder_eq (x y : Float) :
    remainder x y =
      if truncate y == 0 then .error (.remainderByZero x)
      else .ok (modulo (truncate x) (truncate y) + 0) := by
  split
  · next hzero =>
    obtain ⟨b, hy, hb⟩ := truncate_beq_zero_iff.1 hzero
    exact remainder_of_zero hy hb
  · next hzero =>
    rw [truncate_beq_zero_iff] at hzero
    cases hx : rational? x with
    | none =>
      rw [remainder_of_none hx hzero, truncate_of_none hx, modulo_of_none hx]
      rfl
    | some a =>
      have htruncate := rational?_truncate hx
      cases hy : rational? y with
      | none =>
        rw [remainder_of_some hx hy, truncate_of_none hy, modulo_of_some htruncate hy]
        split
        · rw [add_zero_eq htruncate]
        · rfl
      | some b =>
        have hb : truncated b ≠ 0 := fun hb => hzero ⟨b, hy, hb⟩
        have hmodulo := rational?_modulo htruncate (rational?_truncate hy) (Int.cast_ne_zero.2 hb)
        rw [sub_mul_truncated] at hmodulo
        rw [remainder_of_ne_zero hx hy hb, add_zero_eq hmodulo]

end Arithmetic

end Reckoner
