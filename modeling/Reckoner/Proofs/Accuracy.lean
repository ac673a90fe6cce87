/-
  How accurate factorials are.

  Every rounding changes a number by at most one part in `2^53`, and a factorial is rounded once for
  each factor.

  1. **Roundings (`Within`)** — a number is within `k` roundings of another if neither is less than
     the other with one part in `2^53` taken away `k` times.  The relation has two equal sides, so
     products and quotients are within the roundings of both parts together.

  2. **One more rounding (`Rounding.within`)** — the result of an operation on such numbers is within
     one rounding more.  It cannot overflow, as long as the exact result is at most `170!`.

  3. **Factorials (`product_within`, `rational?_product`)** — `n!` is within `n` roundings for each
     `n` up to `170`, and exact up to `22!`, the last one that is a float.
-/
import Mathlib
import Reckoner.Arithmetic.Counting
import Reckoner.Proofs.Factorial
import Reckoner.Proofs.Number.Operations

namespace Reckoner

namespace Number

/-! ## Roundings -/

/-- What a rounding keeps of a number at least. -/
def kept : ℚ := 1 - 1 / 2 ^ 53

/-- Two positive numbers are at most `k` roundings apart. -/
structure Within (k : Nat) (v q : ℚ) : Prop where
  pos : 0 < q
  le : q * kept ^ k ≤ v
  ge : v * kept ^ k ≤ q

theorem kept_pos : 0 < kept := by norm_num [kept]

theorem kept_pow_pos (k : Nat) : 0 < kept ^ k := pow_pos kept_pos k

/-- Not much is lost by few roundings. -/
theorem one_sub_le_kept_pow (k : Nat) : 1 - k / 2 ^ 53 ≤ kept ^ k := by
  have hbernoulli := one_add_mul_le_pow (show (-2 : ℚ) ≤ -(1 / 2 ^ 53) by norm_num) k
  calc (1 : ℚ) - k / 2 ^ 53 = 1 + k * -(1 / 2 ^ 53) := by ring
    _ ≤ (1 + -(1 / 2 ^ 53)) ^ k := hbernoulli
    _ = kept ^ k := by rw [kept, sub_eq_add_neg]

namespace Within

variable {j k : Nat} {v w x q p : ℚ}

theorem pos_left (h : Within k v q) : 0 < v :=
  (mul_pos h.pos (kept_pow_pos k)).trans_le h.le

theorem refl (hq : 0 < q) : Within 0 q q where
  pos := hq
  le := by rw [pow_zero, mul_one]
  ge := by rw [pow_zero, mul_one]

theorem symm (h : Within k v q) : Within k q v where
  pos := h.pos_left
  le := h.ge
  ge := h.le

theorem trans (h : Within j v x) (h' : Within k x q) : Within (j + k) v q where
  pos := h'.pos
  le := by
    calc q * kept ^ (j + k) = q * kept ^ k * kept ^ j := by ring
      _ ≤ x * kept ^ j := mul_le_mul_of_nonneg_right h'.le (kept_pow_pos j).le
      _ ≤ v := h.le
  ge := by
    calc v * kept ^ (j + k) = v * kept ^ j * kept ^ k := by ring
      _ ≤ x * kept ^ k := mul_le_mul_of_nonneg_right h.ge (kept_pow_pos k).le
      _ ≤ q := h'.ge

theorem mul (h : Within j v q) (h' : Within k w p) : Within (j + k) (v * w) (q * p) where
  pos := mul_pos h.pos h'.pos
  le := by
    calc q * p * kept ^ (j + k) = q * kept ^ j * (p * kept ^ k) := by ring
      _ ≤ v * w :=
        mul_le_mul h.le h'.le (mul_pos h'.pos (kept_pow_pos k)).le h.pos_left.le
  ge := by
    calc v * w * kept ^ (j + k) = v * kept ^ j * (w * kept ^ k) := by ring
      _ ≤ q * p :=
        mul_le_mul h.ge h'.ge (mul_pos h'.pos_left (kept_pow_pos k)).le h.pos.le

theorem inv (h : Within k v q) : Within k v⁻¹ q⁻¹ where
  pos := inv_pos.2 h.pos
  le := by
    rw [inv_mul_le_iff₀ h.pos, le_mul_inv_iff₀ h.pos_left, mul_comm]
    exact h.ge
  ge := by
    rw [inv_mul_le_iff₀ h.pos_left, le_mul_inv_iff₀ h.pos, mul_comm]
    exact h.le

theorem div (h : Within j v q) (h' : Within k w p) : Within (j + k) (v / w) (q / p) := by
  rw [div_eq_mul_inv, div_eq_mul_inv]
  exact h.mul h'.inv

/-- Few roundings do not double a number. -/
theorem le_two_mul (h : Within k v q) (hk : k ≤ 2 ^ 52) : v ≤ 2 * q := by
  have hk' : (k : ℚ) ≤ 2 ^ 52 := by exact_mod_cast hk
  have hhalf : 1 / 2 ≤ kept ^ k := by
    have hkept := one_sub_le_kept_pow k
    linarith
  have hle := (mul_le_mul_of_nonneg_left hhalf h.pos_left.le).trans h.ge
  linarith

/-- Few roundings do not make a number tiny. -/
theorem normal (h : Within k v q) (hk : k ≤ 2 ^ 52) (hq : 1 ≤ q) : 2 ^ (-1022 : Int) ≤ v := by
  have htiny : (2 : ℚ) ^ (-1022 : Int) ≤ 2 ^ (-1 : Int) :=
    zpow_le_zpow_right₀ one_le_two (by decide)
  have hdouble := h.symm.le_two_mul hk
  rw [zpow_neg_one] at htiny
  linarith

/-- **Few roundings change a number by little more than one part in `2^53` each.** -/
theorem abs_sub_le (h : Within k v q) (hk : k ≤ 2 ^ 26) : |v - q| ≤ (k + 1) / 2 ^ 53 * q := by
  have hkept := one_sub_le_kept_pow k
  have hk' : (k : ℚ) ≤ 2 ^ 26 := by exact_mod_cast hk
  have hsquare : (k : ℚ) * k ≤ 2 ^ 26 * 2 ^ 26 :=
    mul_le_mul hk' hk' k.cast_nonneg (by positivity)
  have hlow : q * (1 - k / 2 ^ 53) ≤ v :=
    (mul_le_mul_of_nonneg_left hkept h.pos.le).trans h.le
  have hhigh : v * (1 - k / 2 ^ 53) ≤ q * (1 + (k + 1) / 2 ^ 53) * (1 - k / 2 ^ 53) := by
    have hone : (1 : ℚ) ≤ (1 + (k + 1) / 2 ^ 53) * (1 - k / 2 ^ 53) := by
      have hexpand : (1 + ((k : ℚ) + 1) / 2 ^ 53) * (1 - k / 2 ^ 53) =
          1 + (1 / 2 ^ 53 - (k * k + k) / 2 ^ 106) := by ring
      rw [hexpand]
      linarith
    calc v * (1 - k / 2 ^ 53) ≤ v * kept ^ k := mul_le_mul_of_nonneg_left hkept h.pos_left.le
      _ ≤ q * 1 := by rw [mul_one]; exact h.ge
      _ ≤ q * ((1 + (k + 1) / 2 ^ 53) * (1 - k / 2 ^ 53)) :=
        mul_le_mul_of_nonneg_left hone h.pos.le
      _ = q * (1 + (k + 1) / 2 ^ 53) * (1 - k / 2 ^ 53) := (mul_assoc _ _ _).symm
  have hle : v ≤ q * (1 + (k + 1) / 2 ^ 53) := le_of_mul_le_mul_right hhigh (by linarith)
  have hpos := h.pos
  rw [abs_le]
  constructor <;> linarith

/-- A number is within one rounding of what it is rounded to. -/
theorem of_roundedTo (h : RoundedTo x v) (hx : 2 ^ (-1022 : Int) ≤ x) : Within 1 v x := by
  have hpos : 0 < x := (two_zpow_pos _).trans_le hx
  have hnear := abs_le.1 (h.abs_sub_le hx)
  constructor
  · exact hpos
  · rw [pow_one, kept]
    linarith
  · calc v * kept ^ 1 ≤ x * (1 + 1 / 2 ^ 53) * kept ^ 1 :=
          mul_le_mul_of_nonneg_right (by linarith) (kept_pow_pos 1).le
      _ ≤ x := by rw [pow_one, kept]; linarith

end Within

/-! ## One more rounding -/

/-- Twice the largest finite factorial is a float. -/
theorem two_mul_factorial_lt_limit : 2 * ((Nat.factorial 170 : Nat) : ℚ) < limit := by
  have hnat : 2 * Nat.factorial 170 < 2 ^ 1024 := by decide +kernel
  rw [limit]
  exact_mod_cast hnat

/-- **The result of an operation is within one rounding more.** -/
theorem Rounding.within {k : Nat} {x q : ℚ} {z : Float} (h : Rounding .positive x z)
    (hx : Within k x q) (hk : k < 2 ^ 52) (hlow : 1 ≤ q) (hhigh : q ≤ (Nat.factorial 170 : Nat)) :
    ∃ v, rational? z = some v ∧ Within (k + 1) v q := by
  have hnormal := hx.normal hk.le hlow
  have hwithin : ∀ {v}, RoundedTo x v → Within (k + 1) v q := fun hv => by
    rw [Nat.add_comm]
    exact (Within.of_roundedTo hv hnormal).trans hx
  cases h with
  | number hv _ hz => exact ⟨_, hz, hwithin hv⟩
  | overflow hv hle _ =>
    have hdouble := (hwithin hv).le_two_mul hk
    have hlimit := two_mul_factorial_lt_limit
    linarith

end Number

/-! ## Factorials -/

namespace Arithmetic

open Number

/-- **A factorial is within as many roundings as it has factors.** -/
theorem product_within {k : Nat} (hk : k ≤ largestFactorial) :
    ∃ v, rational? (product k) = some v ∧ Within k v (k.factorial : ℚ) := by
  induction k with
  | zero => exact ⟨1, rational?_one, by simpa using Within.refl one_pos⟩
  | succ k ih =>
    obtain ⟨v, hv, hwithin⟩ := ih (Nat.le_of_succ_le hk)
    have hbound : k + 1 ≤ 170 := hk
    have hfactor := rational?_ofInteger_natCast (n := k + 1) (by omega)
    have hpos : (0 : ℚ) < (k + 1 : Nat) := Nat.cast_pos.2 k.succ_pos
    have hproduct : Within k ((k + 1 : Nat) * v) ((k + 1).factorial : ℚ) := by
      have hmul := (Within.refl hpos).mul hwithin
      rwa [Nat.zero_add, ← Nat.cast_mul, ← Nat.factorial_succ] at hmul
    exact (rounding_mul hfactor hv hpos hwithin.pos_left).within hproduct (by omega)
      (by exact_mod_cast (k + 1).factorial_pos) (by exact_mod_cast Nat.factorial_le hbound)

/-- **A factorial that is a float is exact.** -/
theorem rational?_product {k : Nat} (h : IsFloat (k.factorial : ℚ)) :
    rational? (product k) = some (k.factorial : ℚ) := by
  induction k with
  | zero => exact rational?_one
  | succ k ih =>
    have hne := (k + 1).factorial_ne_zero
    have hdvd : k + 1 ∣ (k + 1).factorial := Nat.dvd_factorial k.succ_pos le_rfl
    have hdvd' : k.factorial ∣ (k + 1).factorial := Nat.factorial_dvd_factorial k.le_succ
    obtain ⟨x, hx⟩ := isFloat_of_dvd h hne hdvd
    have hfactor : rational? (ofInteger (k + 1 : Nat)) = some ((k + 1 : Nat) : ℚ) :=
      rational?_ofInteger (n := (k + 1 : Nat)) hx
    have hproduct := rounding_mul hfactor (ih (isFloat_of_dvd h hne hdvd'))
      (Nat.cast_pos.2 k.succ_pos) (Nat.cast_pos.2 k.factorial_pos)
    rw [← Nat.cast_mul, ← Nat.factorial_succ] at hproduct
    exact hproduct.eq_of_isFloat h

/-- Up to `22!`, factorials are floats. -/
theorem isFloat_factorial {k : Nat} (hk : k ≤ 22) : IsFloat (k.factorial : ℚ) := by
  have hsize := isFloat_size (k := 2143861251406875) (j := 19) (by decide) (by decide) (by decide)
  have hlast : IsFloat (Nat.factorial 22 : ℚ) := by
    have hnat : Nat.factorial 22 = 2143861251406875 * 2 ^ 19 := by decide +kernel
    rw [hnat]
    exact_mod_cast hsize
  exact isFloat_of_dvd hlast (Nat.factorial_ne_zero 22) (Nat.factorial_dvd_factorial hk)

end Arithmetic

end Reckoner
