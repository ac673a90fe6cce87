/-
  Operations on floats, rounded to the nearest float.

  1. **Results (`Rounding`)** — a result is the number rounded, or infinite if this is beyond the
     floats.  The mantissa of a result that is located at an exponent not above its own is rounded to
     a count of its units, and carried if all its bits are ones (`rounding_of_locates`).

  2. **Operations (`rounding_sub`, `rounding_mul`, `rounding_div`)** — differences, products and
     quotients are computed with all the bits that this takes.

  3. **Infinity** — products and quotients that do not need to be rounded.
-/
import Mathlib
import Reckoner.Number.Text
import Reckoner.Proofs.Number.Nearest

namespace Reckoner.Number

open Float.Model (Format UnpackedFloat totalExponent)
open Float.Model.UnpackedFloat

variable {q v w : ℚ} {r : Nat} {t : Int}

/-! ## The result of a rounding -/

/-- The number with a sign. -/
def signed : Sign → ℚ → ℚ
  | .positive, q => q
  | .negative, q => -q

theorem apply_size (sign : Sign) (m : Nat) (e : Int) :
    (sign.apply m : ℚ) * 2 ^ e = signed sign (m * 2 ^ e) := by
  cases sign with
  | positive => exact apply_positive_size m e
  | negative => exact apply_negative_size m e

/-- A float is a number rounded, with a sign. -/
inductive Rounding (sign : Sign) (q : ℚ) (z : Float) : Prop
  | number {v : ℚ} (h : RoundedTo q v) (hlt : v < limit)
      (hz : rational? z = some (signed sign v))
  | overflow {v : ℚ} (h : RoundedTo q v) (hle : limit ≤ v)
      (hz : z = .ofModel (.pack (.infinity sign)))

/-- A number that is a float is not changed. -/
theorem Rounding.eq_of_isFloat {z : Float} (h : Rounding .positive q z) (hq : IsFloat q) :
    rational? z = some q := by
  cases h with
  | number h _ hz => rw [hz, signed, h.eq_of_isFloat hq]
  | overflow h hle _ => exact (hq.lt_limit.not_ge (h.eq_of_isFloat hq ▸ hle)).elim

/-- A count of units in canonical form: a full count is carried. -/
theorem exists_fits (hpos : 0 < r) (hle : r ≤ 2 ^ 53) (hlow : -1074 ≤ t)
    (hfull : t ≠ -1074 → 2 ^ 52 ≤ r) : ∃ m k : Nat, r = m * 2 ^ k ∧ Fits m (t + k) := by
  simp only [Fits, totalExponent, Format.targetExponent, Format.minExponent, Format.mantissaBits]
  rcases hle.lt_or_eq with hlt | rfl
  · refine ⟨r, 0, (mul_one r).symm, ?_⟩
    have hlog : r.log2 < 53 := (Nat.log2_lt hpos.ne').2 hlt
    by_cases ht : t = -1074
    · omega
    · have hlog' : 52 ≤ r.log2 := (Nat.le_log2 hpos.ne').2 (hfull ht)
      omega
  · refine ⟨2 ^ 52, 1, rfl, ?_⟩
    rw [Nat.log2_two_pow]
    omega

/-- A number with too large an exponent is packed as infinity. -/
theorem pack_of_lt {sign : Sign} {m : Nat} {e : Int} (hpos : 0 < m) (he : 971 < e) :
    Float.Model.pack (.finite sign m e hpos) = .pack (.infinity sign) := by
  have hbits : pack Format.binary64 (.finite sign m e hpos) =
      pack Format.binary64 (.infinity sign) := by
    have hlarge : 2 ^ Format.binary64.exponentBits ≤ (e + Format.binary64.exponentBias +
        Format.binary64.mantissaBitsWithoutImplicit).toNat + 1 := by
      show 2 ^ 11 ≤ (e + 1023 + 52).toNat + 1
      omega
    simp only [pack, if_pos hlarge]
  simp only [Float.Model.pack, hbits]

/-- A count of units, packed. -/
theorem rounding_of_fits (sign : Sign) {m : Nat} {e : Int} (hpos : 0 < m) (hfits : Fits m e)
    (h : RoundedTo q (m * 2 ^ e)) :
    Rounding sign q (.ofModel (.pack (.finite sign m e hpos))) := by
  rcases le_or_gt e 971 with he | he
  · refine .number h ?_ ?_
    · have hm : (m : ℚ) < 2 ^ 53 := by exact_mod_cast hfits.mantissa_lt
      calc (m : ℚ) * 2 ^ e < 2 ^ 53 * 2 ^ e := by gcongr
        _ ≤ 2 ^ 53 * 2 ^ (971 : Int) := by gcongr; exact one_le_two
        _ = limit := (limit_eq 53 971 rfl).symm
    · rw [← apply_size]
      exact rational?_of_unpack_finite (unpack_pack_of_fits sign hpos hfits he)
  · refine .overflow h ?_ (congrArg Float.ofModel (pack_of_lt hpos he))
    have hbits : m.log2 = 52 := hfits.log2_eq_or.resolve_right (by omega)
    have hm : (2 : ℚ) ^ 52 ≤ m := by exact_mod_cast ((Nat.log2_eq_iff hpos.ne').1 hbits).1
    calc limit = 2 ^ 52 * 2 ^ (972 : Int) := limit_eq 52 972 rfl
      _ ≤ 2 ^ 52 * 2 ^ e := by gcongr; exacts [one_le_two, he]
      _ ≤ m * 2 ^ e := by gcongr

section
variable {m : Nat} {e : Int} {accuracy : Accuracy} {x : ℚ}

/-- The units that a result is counted in. -/
theorem counts_shift (h : Locates (.ofMantissaAndAccuracy m accuracy) x)
    (he : e ≤ Format.binary64.targetExponent (totalExponent m e)) {k : Nat}
    (hk : (Format.binary64.targetExponent (totalExponent m e) - e).toNat = k) :
    Counts (x * 2 ^ e) (ExtendedMantissa.ofMantissaAndAccuracy m accuracy >>> k).roundedMantissa
      (e + k) := by
  have hmantissa : (ExtendedMantissa.ofMantissaAndAccuracy m accuracy).mantissa = m := by
    rcases accuracy with _ | (_ | _ | _) <;> rfl
  have hle := h.le
  have hlt := h.lt
  rw [hmantissa] at hle hlt
  simp only [totalExponent, Format.targetExponent, Format.minExponent, Format.mantissaBits]
    at he hk
  constructor
  · have hunits : x * 2 ^ e / 2 ^ (e + k) = x / 2 ^ k := by
      rw [two_zpow_add_natCast, mul_div_mul_right _ _ (two_zpow_pos e).ne']
    rw [hunits]
    exact (h.shiftRight k).rounds
  · omega
  · intro ht
    have hne : m ≠ 0 := by
      rintro rfl
      rw [Nat.log2_zero] at he hk
      omega
    have hexponent : e + k + 52 = e + m.log2 := by omega
    have hlog : (2 : ℚ) ^ m.log2 ≤ m := by exact_mod_cast Nat.log2_self_le hne
    rw [hexponent, two_zpow_add_natCast]
    exact mul_le_mul_of_nonneg_right (hlog.trans hle) (two_zpow_pos e).le
  · have hlog : (m : ℚ) + 1 ≤ 2 ^ (m.log2 + 1) := by exact_mod_cast Nat.lt_log2_self
    calc x * 2 ^ e < (m + 1) * 2 ^ e := by gcongr
      _ ≤ 2 ^ (m.log2 + 1) * 2 ^ e := by gcongr
      _ = 2 ^ (e + (m.log2 + 1 : Nat)) := (two_zpow_add_natCast e _).symm
      _ ≤ 2 ^ (e + k + 53) := zpow_le_zpow_right₀ one_le_two (by omega)

/-- A mantissa that is rounded to zero. -/
theorem roundWithAccuracy_eq_zero (sign : Sign) {em : ExtendedMantissa}
    (hshift : shiftToTargetExponent Format.binary64 m e accuracy = (em, t))
    (hr : em.roundedMantissa = 0) :
    roundWithAccuracy Format.binary64 sign m e accuracy = .zero sign := by
  have hzero := shiftRight_of_mul_two_pow 0
    (Format.binary64.targetExponent (totalExponent 0 t) - t).toNat
  rw [Nat.zero_mul] at hzero
  have hagain : (shiftToTargetExponent Format.binary64 0 t .exact).1.mantissa = 0 := by
    rw [shiftToTargetExponent, shiftToExponent, ExtendedMantissa.ofMantissaAndAccuracy]
    exact congrArg ExtendedMantissa.mantissa hzero
  simp only [roundWithAccuracy, hshift, hr, dif_pos hagain]

/-- A mantissa that is rounded to a count of units in canonical form. -/
theorem roundWithAccuracy_eq_finite (sign : Sign) {em : ExtendedMantissa} {m' j : Nat}
    (hshift : shiftToTargetExponent Format.binary64 m e accuracy = (em, t))
    (hr : em.roundedMantissa = m' * 2 ^ j) (hpos : 0 < m') (hfits : Fits m' (t + j)) :
    roundWithAccuracy Format.binary64 sign m e accuracy = .finite sign m' (t + j) hpos := by
  have hagain := shiftToTargetExponent_of_fits hpos hfits j
  rw [add_sub_cancel_right] at hagain
  simp only [roundWithAccuracy, hshift, hr, hagain, dif_neg hpos.ne']

/-- **What is rounded.**  A number that is located at an exponent not above that of its result. -/
theorem rounding_of_locates (sign : Sign) (h : Locates (.ofMantissaAndAccuracy m accuracy) x)
    (he : e ≤ Format.binary64.targetExponent (totalExponent m e)) :
    Rounding sign (x * 2 ^ e)
      (.ofModel (.pack (roundWithAccuracy Format.binary64 sign m e accuracy))) := by
  obtain ⟨k, hk⟩ : ∃ k,
      (Format.binary64.targetExponent (totalExponent m e) - e).toNat = k := ⟨_, rfl⟩
  have hcounts := counts_shift h he hk
  have hshift : shiftToTargetExponent Format.binary64 m e accuracy =
      (ExtendedMantissa.ofMantissaAndAccuracy m accuracy >>> k, e + k) := by
    rw [shiftToTargetExponent, shiftToExponent, hk]
  obtain ⟨r, hr⟩ : ∃ r,
      (ExtendedMantissa.ofMantissaAndAccuracy m accuracy >>> k).roundedMantissa = r := ⟨_, rfl⟩
  rw [hr] at hcounts
  rcases Nat.eq_zero_or_pos r with rfl | hpos
  · rw [roundWithAccuracy_eq_zero sign hshift hr]
    refine .number (v := 0) ⟨0, e + k, hcounts, by simp⟩ limit_pos ?_
    refine (rational?_of_unpack_zero (unpack_pack_zero sign)).trans (congrArg some ?_)
    cases sign <;> simp [signed]
  · obtain ⟨m', j, rfl, hfits⟩ :=
      exists_fits hpos hcounts.le_two_pow hcounts.least hcounts.two_pow_le
    have hpos' : 0 < m' := Nat.pos_of_mul_pos_right hpos
    rw [roundWithAccuracy_eq_finite sign hshift hr hpos' hfits]
    refine rounding_of_fits sign hpos' hfits ⟨_, _, hcounts, ?_⟩
    rw [two_zpow_add_natCast (e + k) j]
    push_cast
    ring

end

/-! ## Operations -/

/-- Rounding a positive number that is written with any exponent. -/
theorem rounding_round (sign : Sign) {n : Nat} (hn : 0 < n) (e : Int) :
    Rounding sign (n * 2 ^ e)
      (.ofModel (.pack (UnpackedFloat.round Format.binary64 sign n e))) := by
  obtain ⟨k, hk⟩ : ∃ k,
      (e - Format.binary64.targetExponent (totalExponent n e)).toNat = k := ⟨_, rfl⟩
  have htotal : totalExponent (n * 2 ^ k) (e - k) = totalExponent n e :=
    totalExponent_mul_two_pow hn k
  have hvalue : (n : ℚ) * 2 ^ e = (n * 2 ^ k : Nat) * 2 ^ (e - k) := by
    have hpow := two_zpow_add_natCast (e - k) k
    rw [sub_add_cancel] at hpow
    rw [hpow]
    push_cast
    ring
  rw [UnpackedFloat.round, decreaseExponent, hk, Nat.shiftLeft_eq, hvalue]
  exact rounding_of_locates sign (locates_exact _) (by rw [htotal]; omega)

theorem signed_signed (sign : Sign) (q : ℚ) : signed sign (signed sign q) = q := by
  cases sign with
  | positive => rfl
  | negative => exact neg_neg q

/-- A positive float is rounded to itself. -/
theorem roundedTo_of_fits {m : Nat} {e : Int} (hpos : 0 < m) (hfits : Fits m e) :
    RoundedTo (m * 2 ^ e) (m * 2 ^ e) := by
  have hunits : (m : ℚ) * 2 ^ e / 2 ^ e = m := mul_div_cancel_right₀ _ (two_zpow_pos e).ne'
  refine ⟨m, e, ⟨?_, hfits.le_exponent, fun he => ?_, ?_⟩, rfl⟩
  · rw [hunits]
    exact (locates_exact m).rounds
  · have hlog : m.log2 = 52 := hfits.log2_eq_or.resolve_right he
    have hm : (2 : ℚ) ^ 52 ≤ m := by exact_mod_cast ((Nat.log2_eq_iff hpos.ne').1 hlog).1
    calc (2 : ℚ) ^ (e + 52) = 2 ^ 52 * 2 ^ e := two_zpow_add_natCast e 52
      _ ≤ m * 2 ^ e := by gcongr
  · have hm : (m : ℚ) < 2 ^ 53 := by exact_mod_cast hfits.mantissa_lt
    calc (m : ℚ) * 2 ^ e < 2 ^ 53 * 2 ^ e := by gcongr
      _ = 2 ^ (e + 53) := (two_zpow_add_natCast e 53).symm

section
variable {x y : Float} {a b : ℚ} {sign : Sign}

/-- A result that has the sign that is expected of it. -/
theorem Rounding.signed_apply {z : Float} {sign' : Sign} {m : Nat} {e : Int}
    (h : Rounding sign' (m * 2 ^ e) z) (hpos : 0 < signed sign (sign'.apply m * 2 ^ e)) :
    Rounding sign (signed sign (sign'.apply m * 2 ^ e)) z := by
  have hsize : (0 : ℚ) ≤ m * 2 ^ e := mul_nonneg m.cast_nonneg (two_zpow_pos e).le
  rw [apply_size] at hpos ⊢
  obtain rfl : sign = sign' := by
    cases sign <;> cases sign'
    · rfl
    · exact (lt_irrefl 0 (hpos.trans_le (neg_nonpos.2 hsize))).elim
    · exact (lt_irrefl 0 (hpos.trans_le (neg_nonpos.2 hsize))).elim
    · rfl
  rwa [signed_signed]

/-- **A difference is rounded to the nearest float.** -/
theorem rounding_sub (hx : rational? x = some a) (hy : rational? y = some b)
    (hpos : 0 < signed sign (a - b)) : Rounding sign (signed sign (a - b)) (x - y) := by
  have hsub : x - y = .ofModel (.pack (sub Format.binary64 x.toModel.unpack y.toModel.unpack)) :=
    rfl
  rw [hsub]
  cases represents_of_rational? hx with
  | zero _ hparts =>
    cases represents_of_rational? hy with
    | zero _ _ => cases sign <;> simp [signed] at hpos
    | @finite sign' m' e' hpos' hfits' _ hparts' =>
      rw [zero_sub, ← neg_mul, ← Int.cast_neg, ← apply_neg] at hpos ⊢
      rw [hparts, hparts']
      exact (rounding_of_fits (-sign') hpos' hfits' (roundedTo_of_fits hpos' hfits')).signed_apply
        hpos
  | @finite sign' m e hposm hfits _ hparts =>
    cases represents_of_rational? hy with
    | zero _ hparts' =>
      rw [sub_zero] at hpos ⊢
      rw [hparts, hparts']
      exact (rounding_of_fits sign' hposm hfits (roundedTo_of_fits hposm hfits)).signed_apply hpos
    | @finite sign'' m' e' hpos' _ _ hparts' =>
      rw [sub_size] at hpos ⊢
      rw [hparts, hparts', sub_finite_finite]
      obtain ⟨sign', n, hn⟩ := exists_apply
        (sign'.apply m * 2 ^ (e - e').toNat - sign''.apply m' * 2 ^ (e' - e).toNat)
      rw [hn] at hpos ⊢
      have hne : 0 < n := by
        refine Nat.pos_of_ne_zero fun hzero => ?_
        rw [hzero] at hpos
        cases sign <;> cases sign' <;> simp [signed, Sign.apply] at hpos
      rw [normalize_apply sign' hne]
      exact (rounding_round sign' hne _).signed_apply hpos

/-- The parts of a positive float. -/
theorem exists_unpack_of_pos (hx : rational? x = some a) (ha : 0 < a) :
    ∃ (m : Nat) (e : Int) (hpos : 0 < m), a = m * 2 ^ e ∧ Fits m e ∧
      x.toModel.unpack = .finite .positive m e hpos := by
  cases represents_of_rational? hx with
  | zero _ _ => exact (lt_irrefl 0 ha).elim
  | @finite sign m e hpos hfits _ hparts =>
    cases sign with
    | positive => exact ⟨m, e, hpos, apply_positive_size m e, hfits, hparts⟩
    | negative =>
      rw [apply_negative_size] at ha
      exact (lt_asymm (size_pos hpos e) (neg_pos.1 ha)).elim

/-- **A product is rounded to the nearest float.** -/
theorem rounding_mul (hx : rational? x = some a) (hy : rational? y = some b) (ha : 0 < a)
    (hb : 0 < b) : Rounding .positive (a * b) (x * y) := by
  obtain ⟨m, e, hpos, rfl, hfits, hparts⟩ := exists_unpack_of_pos hx ha
  obtain ⟨m', e', hpos', rfl, hfits', hparts'⟩ := exists_unpack_of_pos hy hb
  have hmul : x * y = .ofModel (.pack (mul Format.binary64 x.toModel.unpack y.toModel.unpack)) :=
    rfl
  have hvalue : (m : ℚ) * 2 ^ e * (m' * 2 ^ e') = (m * m' : Nat) * 2 ^ (e + e') := by
    rw [zpow_add₀ two_ne_zero]
    push_cast
    ring
  rw [hmul, hparts, hparts', hvalue]
  refine rounding_of_locates .positive (locates_exact (m * m')) ?_
  -- the product of the mantissas has all bits, unless both exponents are the least one
  have hlog : m.log2 ≤ (m * m').log2 :=
    (Nat.le_log2 (Nat.mul_pos hpos hpos').ne').2
      ((Nat.log2_self_le hpos.ne').trans (Nat.le_mul_of_pos_right m hpos'))
  have hlog' : m'.log2 ≤ (m * m').log2 :=
    (Nat.le_log2 (Nat.mul_pos hpos hpos').ne').2
      ((Nat.log2_self_le hpos'.ne').trans (Nat.le_mul_of_pos_left m' hpos))
  have hbits := hfits.log2_eq_or
  have hbits' := hfits'.log2_eq_or
  simp only [totalExponent, Format.targetExponent, Format.minExponent, Format.mantissaBits]
  omega

/-- The exponent of a quotient is not above that of its result. -/
theorem divisionExponent_le {m m' : Nat} {e e' target : Int} {shift : Nat} (hpos : 0 < m)
    (hpos' : 0 < m')
    (htarget : min (e - e')
      (Format.binary64.targetExponent (totalExponent m e - totalExponent m' e')) = target)
    (hshift : (e - e' - target).toNat = shift) :
    target ≤
      Format.binary64.targetExponent (totalExponent (m * 2 ^ shift / m') target) := by
  simp only [totalExponent, Format.targetExponent, Format.minExponent, Format.mantissaBits]
    at htarget ⊢
  by_cases hlow : target ≤ -1074
  · omega
  · -- the dividend has at least 53 bits more than the divisor
    have hbits : m'.log2 + 53 ≤ m.log2 + shift := by omega
    have hquotient : 2 ^ 52 ≤ m * 2 ^ shift / m' := by
      rw [Nat.le_div_iff_mul_le hpos']
      calc 2 ^ 52 * m' ≤ 2 ^ 52 * 2 ^ (m'.log2 + 1) :=
            Nat.mul_le_mul_left _ Nat.lt_log2_self.le
        _ = 2 ^ (m'.log2 + 53) := by rw [← pow_add]; congr 1; omega
        _ ≤ 2 ^ (m.log2 + shift) := Nat.pow_le_pow_right two_pos hbits
        _ = 2 ^ m.log2 * 2 ^ shift := pow_add 2 _ _
        _ ≤ m * 2 ^ shift := Nat.mul_le_mul_right _ (Nat.log2_self_le hpos.ne')
    have hlog : 52 ≤ (m * 2 ^ shift / m').log2 :=
      (Nat.le_log2 (by omega)).2 hquotient
    omega

/-- **A quotient is rounded to the nearest float.** -/
theorem rounding_div (hx : rational? x = some a) (hy : rational? y = some b) (ha : 0 < a)
    (hb : 0 < b) : Rounding .positive (a / b) (x / y) := by
  obtain ⟨m, e, hpos, rfl, hfits, hparts⟩ := exists_unpack_of_pos hx ha
  obtain ⟨m', e', hpos', rfl, hfits', hparts'⟩ := exists_unpack_of_pos hy hb
  have hdiv : x / y = .ofModel (.pack (div Format.binary64 x.toModel.unpack y.toModel.unpack)) :=
    rfl
  rw [hdiv, hparts, hparts', div, divCore]
  obtain ⟨target, htarget⟩ : ∃ target, min (e - e')
    (Format.binary64.targetExponent (totalExponent m e - totalExponent m' e')) = target := ⟨_, rfl⟩
  obtain ⟨shift, hshift⟩ : ∃ shift, (e - e' - target).toNat = shift := ⟨_, rfl⟩
  have hvalue : (m : ℚ) * 2 ^ e / (m' * 2 ^ e') = (m * 2 ^ shift : Nat) / m' * 2 ^ target := by
    have hexponent : e = e' + target + shift := by omega
    have hne : (m' : ℚ) ≠ 0 := Nat.cast_ne_zero.2 hpos'.ne'
    rw [hexponent, two_zpow_add_natCast, zpow_add₀ two_ne_zero]
    have hne' := (two_zpow_pos e').ne'
    push_cast
    field_simp
  simp only [htarget, hshift, Nat.shiftLeft_eq]
  rw [hvalue]
  exact rounding_of_locates .positive (locates_quotient (m * 2 ^ shift) hpos')
    (divisionExponent_le hpos hpos' htarget hshift)

/-! ## Infinity -/

/-- Products do not depend on the order of the factors. -/
theorem product_comm (x y : Float) : x * y = y * x := by
  show Float.ofModel (.pack (mul Format.binary64 x.toModel.unpack y.toModel.unpack)) =
    .ofModel (.pack (mul Format.binary64 y.toModel.unpack x.toModel.unpack))
  have hsign : ∀ s s' : Sign, s * s' = s' * s := by
    rintro (_ | _) (_ | _) <;> rfl
  congr 2
  cases x.toModel.unpack <;> cases y.toModel.unpack <;>
    simp only [mul, hsign, Nat.mul_comm, Int.add_comm]

/-- Infinity, divided by a positive number. -/
theorem infinity_div (hy : rational? y = some b) (hb : 0 < b) : infinity / y = infinity := by
  obtain ⟨m, e, hpos, -, -, hparts⟩ := exists_unpack_of_pos hy hb
  show Float.ofModel (.pack (div Format.binary64 infinity.toModel.unpack y.toModel.unpack)) = _
  rw [hparts]
  rfl

theorem infinity_div_infinity : infinity / infinity = notANumber := by decide +kernel

theorem infinity_mul_infinity : infinity * infinity = infinity := by decide +kernel

theorem rational?_infinity (sign : Sign) :
    rational? (.ofModel (.pack (.infinity sign))) = none := by
  cases sign <;> decide +kernel

theorem rational?_notANumber : rational? notANumber = none := by decide +kernel

/-- A difference from something that is no number is none. -/
theorem rational?_sub_of_none (hx : rational? x = some a) (hy : rational? y = none) :
    rational? (x - y) = none := by
  show rational? (.ofModel (.pack (sub Format.binary64 x.toModel.unpack y.toModel.unpack))) = none
  rcases exists_infinity_or_notANumber hy with ⟨sign', hparts'⟩ | hparts'
  · cases represents_of_rational? hx with
    | zero sign hparts => rw [hparts, hparts']; exact rational?_infinity (-sign')
    | finite sign hpos hfits hexponent hparts =>
      rw [hparts, hparts']
      exact rational?_infinity (-sign')
  · cases represents_of_rational? hx with
    | zero sign hparts => rw [hparts, hparts']; exact rational?_notANumber
    | finite sign hpos hfits hexponent hparts =>
      rw [hparts, hparts']
      exact rational?_notANumber

end

end Reckoner.Number
