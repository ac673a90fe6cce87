/-
  Where a number lies between two mantissas.

  A result that has more bits than a float is kept as a mantissa and two bits: whether the rest is
  at least a half, and whether anything is left besides.

  1. **Places (`Locates`)** — this tells on which side of a half the number lies.  Shifting by one
     halves the number and looks at the last bit only, and the place is still right
     (`Locates.shiftRight`).

  2. **Rounding (`Locates.rounds`)** — the rounded mantissa is the integer nearest to the number, and
     of two the even one (`Rounds`).

  3. **Quotients (`locates_quotient`)** — the quotient of two natural numbers lies where the
     remainder says.
-/
import Mathlib
import Reckoner.Proofs.Number.Rounding

namespace Reckoner.Number

open Float.Model.UnpackedFloat

/-! ## Places -/

/-- The mantissa is the integer part of a number, and the two bits place the rest. -/
inductive Locates : ExtendedMantissa → ℚ → Prop
  | whole (m : Nat) : Locates ⟨m, false, false⟩ m
  | low {m : Nat} {x : ℚ} (h : m < x) (h' : x < m + 1 / 2) : Locates ⟨m, false, true⟩ x
  | half (m : Nat) : Locates ⟨m, true, false⟩ (m + 1 / 2)
  | high {m : Nat} {x : ℚ} (h : m + 1 / 2 < x) (h' : x < m + 1) : Locates ⟨m, true, true⟩ x

variable {em : ExtendedMantissa} {x : ℚ}

theorem Locates.le (h : Locates em x) : em.mantissa ≤ x := by
  rcases h with _ | ⟨h, _⟩ | _ | ⟨h, _⟩
  · exact le_rfl
  · exact h.le
  · exact le_add_of_nonneg_right (by norm_num)
  · show (_ : ℚ) ≤ _
    linarith

theorem Locates.lt (h : Locates em x) : x < em.mantissa + 1 := by
  rcases h with _ | ⟨_, h⟩ | _ | ⟨_, h⟩
  · exact lt_add_one _
  · show _ < (_ : ℚ)
    linarith
  · show _ < (_ : ℚ)
    linarith
  · exact h

/-- A number that is no integer, halved: the last bit of the mantissa decides, and something is
    left in any case. -/
theorem locates_half_of_lt {m : Nat} (h : m < x) (h' : x < m + 1) :
    Locates ⟨m / 2, m % 2 != 0, true⟩ (x / 2) := by
  rcases Nat.even_or_odd' m with ⟨k, rfl | rfl⟩
  · have hquotient : 2 * k / 2 = k := by omega
    have hbit : (2 * k % 2 != 0) = false := by rw [Nat.mul_mod_right]; rfl
    push_cast at h h'
    rw [hquotient, hbit]
    exact .low (by linarith) (by linarith)
  · have hquotient : (2 * k + 1) / 2 = k := by omega
    have hbit : ((2 * k + 1) % 2 != 0) = true := by rw [Nat.mul_add_mod]; rfl
    push_cast at h h'
    rw [hquotient, hbit]
    exact .high (by linarith) (by linarith)

/-- An integer, halved: the rest is a half or nothing. -/
theorem locates_half (m : Nat) : Locates ⟨m / 2, m % 2 != 0, false⟩ (m / 2) := by
  rcases Nat.even_or_odd' m with ⟨k, rfl | rfl⟩
  · have hquotient : 2 * k / 2 = k := by omega
    have hbit : (2 * k % 2 != 0) = false := by rw [Nat.mul_mod_right]; rfl
    have hx : ((2 * k : Nat) : ℚ) / 2 = k := by push_cast; ring
    rw [hquotient, hbit, hx]
    exact .whole k
  · have hquotient : (2 * k + 1) / 2 = k := by omega
    have hbit : ((2 * k + 1) % 2 != 0) = true := by rw [Nat.mul_add_mod]; rfl
    have hx : ((2 * k + 1 : Nat) : ℚ) / 2 = k + 1 / 2 := by push_cast; ring
    rw [hquotient, hbit, hx]
    exact .half k

/-- Shifting by one halves the number. -/
theorem Locates.shiftRightOne (h : Locates em x) : Locates em.shiftRightOne (x / 2) := by
  rcases h with m | ⟨h, h'⟩ | m | ⟨h, h'⟩
  · exact locates_half m
  · exact locates_half_of_lt h (by linarith)
  · exact locates_half_of_lt (by linarith) (by linarith)
  · exact locates_half_of_lt (by linarith) h'

/-- **Shifting keeps the place.** -/
theorem Locates.shiftRight (h : Locates em x) (k : Nat) : Locates (em >>> k) (x / 2 ^ k) := by
  show Locates (k.repeat ExtendedMantissa.shiftRightOne em) _
  induction k with
  | zero =>
    rw [pow_zero, div_one]
    exact h
  | succ k ih =>
    rw [pow_succ, ← div_div]
    exact ih.shiftRightOne

/-! ## Rounding -/

/-- A natural number is nearest to `x` among the integers, and even if another one is as near. -/
structure Rounds (r : Nat) (x : ℚ) : Prop where
  near : |(r : ℚ) - x| ≤ 1 / 2
  even : |(r : ℚ) - x| = 1 / 2 → Even r

/-- **The rounded mantissa is the nearest integer.** -/
theorem Locates.rounds (h : Locates em x) : Rounds em.roundedMantissa x := by
  rcases h with m | @⟨m, x, h, h'⟩ | m | @⟨m, x, h, h'⟩
  · show Rounds m m
    have hzero : |(m : ℚ) - m| = 0 := by rw [sub_self, abs_zero]
    exact ⟨by rw [hzero]; norm_num, fun hhalf => by rw [hzero] at hhalf; norm_num at hhalf⟩
  · show Rounds m x
    have hlt : |(m : ℚ) - x| < 1 / 2 := abs_lt.2 ⟨by linarith, by linarith⟩
    exact ⟨hlt.le, fun hhalf => absurd hhalf hlt.ne⟩
  · show Rounds (m + m % 2) (m + 1 / 2)
    rcases Nat.even_or_odd m with heven | hodd
    · have hsame : m + m % 2 = m := by rw [Nat.even_iff.1 heven, Nat.add_zero]
      have hhalf : |(m : ℚ) - (m + 1 / 2)| = 1 / 2 := by
        rw [sub_add_cancel_left, abs_neg, abs_of_pos one_half_pos]
      rw [hsame]
      exact ⟨hhalf.le, fun _ => heven⟩
    · have hnext : m + m % 2 = m + 1 := by rw [Nat.odd_iff.1 hodd]
      have hhalf : |((m + 1 : Nat) : ℚ) - (m + 1 / 2)| = 1 / 2 := by
        rw [Nat.cast_succ, add_sub_add_left_eq_sub, sub_half, abs_of_pos one_half_pos]
      rw [hnext]
      exact ⟨hhalf.le, fun _ => hodd.add_one⟩
  · show Rounds (m + 1) x
    have hlt : |((m + 1 : Nat) : ℚ) - x| < 1 / 2 := by
      rw [Nat.cast_succ]
      exact abs_lt.2 ⟨by linarith, by linarith⟩
    exact ⟨hlt.le, fun hhalf => absurd hhalf hlt.ne⟩

/-- Two integers are at least one apart. -/
theorem one_le_add_of_ne {r : Nat} {k : Int} (hne : k ≠ r) (x : ℚ) :
    1 ≤ |(k : ℚ) - x| + |(r : ℚ) - x| := by
  have hone : 1 ≤ |k - r| := Int.one_le_abs (sub_ne_zero.2 hne)
  calc (1 : ℚ) ≤ |(k : ℚ) - r| := by exact_mod_cast hone
    _ ≤ |(k : ℚ) - x| + |x - r| := abs_sub_le _ _ _
    _ = |(k : ℚ) - x| + |(r : ℚ) - x| := by rw [abs_sub_comm x]

/-- No other integer is nearer. -/
theorem Rounds.near_le {r : Nat} (h : Rounds r x) (k : Int) : |(r : ℚ) - x| ≤ |(k : ℚ) - x| := by
  by_cases hk : k = r
  · rw [hk, Int.cast_natCast]
  · have hnear := h.near
    have hapart := one_le_add_of_ne hk x
    linarith

/-- An even integer that is as near is the same: otherwise both would be a half away, hence
    neighbours, and one of them odd. -/
theorem Rounds.eq_of_even {r : Nat} (h : Rounds r x) {k : Int} (heven : Even k)
    (hk : |(k : ℚ) - x| ≤ |(r : ℚ) - x|) : k = r := by
  by_contra hne
  have hnear := h.near
  have hapart := one_le_add_of_ne hne x
  have hhalf : |(r : ℚ) - x| = 1 / 2 := by linarith
  have hnext : |(k : ℚ) - r| ≤ 1 := by
    have htriangle := abs_sub_le (k : ℚ) x r
    rw [abs_sub_comm x] at htriangle
    linarith
  have hdistance : |k - r| = 1 :=
    le_antisymm (by exact_mod_cast hnext) (Int.one_le_abs (sub_ne_zero.2 hne))
  have heven' : Even |k - r| := even_abs.2 (heven.sub (by exact_mod_cast h.even hhalf))
  rw [hdistance] at heven'
  exact absurd heven' (by decide)

/-- A number below an even integer is rounded to it from a half below on. -/
theorem Rounds.lt_iff {r : Nat} (h : Rounds r x) {n : Nat} (heven : Even n) (hx : x < n) :
    r < n ↔ x < n - 1 / 2 := by
  have hnear := abs_le.1 h.near
  constructor
  · intro hr
    by_contra hhalf
    have habs : |((n : Int) : ℚ) - x| ≤ 1 / 2 := by
      rw [Int.cast_natCast, abs_le]
      exact ⟨by linarith, by linarith⟩
    have hapart := one_le_add_of_ne (Int.natCast_inj.not.2 hr.ne') x
    have hsame := h.eq_of_even ((Int.even_coe_nat n).2 heven) (by linarith)
    exact hr.ne' (Int.natCast_inj.1 hsame)
  · intro hhalf
    have hr : (r : ℚ) < n := by linarith
    exact_mod_cast hr

/-! ## Quotients -/

/-- An integer that is not followed by anything. -/
theorem locates_exact (m : Nat) : Locates (.ofMantissaAndAccuracy m .exact) m :=
  .whole m

/-- **The remainder places the quotient.** -/
theorem locates_quotient (n : Nat) {d : Nat} (hd : 0 < d) :
    Locates (.ofMantissaAndAccuracy (n / d) (accuracyOfFraction (n % d) d)) (n / d) := by
  have hpos : (0 : ℚ) < d := Nat.cast_pos.2 hd
  have hrest : ((n % d : Nat) : ℚ) < d := Nat.cast_lt.2 (Nat.mod_lt n hd)
  have hx : (n : ℚ) / d = (n / d : Nat) + (n % d : Nat) / d := by
    rw [eq_comm, eq_div_iff hpos.ne', add_mul, div_mul_cancel₀ _ hpos.ne']
    exact_mod_cast Nat.div_add_mod' n d
  rw [hx, accuracyOfFraction]
  generalize n % d = rest at hrest ⊢
  by_cases hzero : rest = 0
  · rw [if_pos hzero, hzero, Nat.cast_zero, zero_div, add_zero]
    exact .whole _
  · have hfraction : (0 : ℚ) < rest / d := div_pos (Nat.cast_pos.2 (Nat.pos_of_ne_zero hzero)) hpos
    have hfraction' : (rest : ℚ) / d < 1 := (div_lt_one hpos).2 hrest
    rw [if_neg hzero]
    rcases lt_trichotomy (2 * rest) d with hlt | heq | hgt
    · have hhalf : (rest : ℚ) / d < 1 / 2 := by
        rw [div_lt_div_iff₀ hpos two_pos, one_mul, mul_comm]
        exact_mod_cast hlt
      rw [compare_lt_iff_lt.2 hlt]
      exact .low (by linarith) (by linarith)
    · have hhalf : (rest : ℚ) / d = 1 / 2 := by
        rw [div_eq_div_iff hpos.ne' two_ne_zero, one_mul, mul_comm]
        exact_mod_cast heq
      rw [compare_eq_iff_eq.2 heq, hhalf]
      exact .half _
    · have hhalf : 1 / 2 < (rest : ℚ) / d := by
        rw [div_lt_div_iff₀ two_pos hpos, one_mul, mul_comm]
        exact_mod_cast hgt
      rw [compare_gt_iff_gt.2 hgt]
      exact .high (by linarith) (by linarith)

end Reckoner.Number
