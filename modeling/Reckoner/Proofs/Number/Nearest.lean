/-
  Rounding to the nearest float.

  A positive number is counted in units `2^t`, so small that it has all bits unless they are the
  least units of all, and the count is rounded to the nearest integer, of two to the even one.

  1. **The crux (`RoundedTo.nearest`)** — no float is nearer than the rounded number.  A float that
     is counted in smaller units is less than `2^52` of the units, and the number is not.

  2. **What follows** — rounding keeps floats (`RoundedTo.eq_of_isFloat`), integers
     (`RoundedTo.exists_natCast`) and the order to floats (`RoundedTo.le_of_le`,
     `RoundedTo.le_of_ge`), and changes a number by at most one part in `2^53`
     (`RoundedTo.abs_sub_le`).

  3. **Integers (`RoundedTo.exists_natCast_of_near`)** — a fraction is rounded to an integer if and
     only if an integer is as near as any float, because integers win the ties.

  4. **Overflow (`RoundedTo.lt_limit_iff`)** — the numbers from `2^1024 - 2^970` upwards are rounded
     to `2^1024` or more, which is beyond the floats.
-/
import Mathlib
import Reckoner.Proofs.Number.Places
import Reckoner.Proofs.Number.Rational

namespace Reckoner.Number

open Float.Model (Format UnpackedFloat totalExponent)
open Float.Model.UnpackedFloat

/-! ## Numbers that are floats -/

/-- A number is a float. -/
def IsFloat (q : ℚ) : Prop := ∃ x, rational? x = some q

/-- A float is nearest to a number if no float is nearer; there may be two. -/
def IsNearest (w q : ℚ) : Prop := IsFloat w ∧ ∀ w', IsFloat w' → |w - q| ≤ |w' - q|

/-- Floats are integers below `2^53` times powers of two. -/
theorem IsFloat.exists_size {q : ℚ} (h : IsFloat q) :
    ∃ k j : Int, q = k * 2 ^ j ∧ k.natAbs < 2 ^ 53 ∧ -1074 ≤ j ∧ j ≤ 971 := by
  obtain ⟨x, hx⟩ := h
  cases represents_of_rational? hx with
  | zero sign _ => exact ⟨0, 0, by simp, by decide, by decide, by decide⟩
  | @finite sign m e _ hfits hexponent _ =>
    refine ⟨sign.apply m, e, rfl, ?_, hfits.le_exponent, hexponent⟩
    rw [natAbs_apply]
    exact hfits.mantissa_lt

theorem isFloat_size {k j : Int} (hk : k.natAbs < 2 ^ 53) (hlow : -1074 ≤ j) (hhigh : j ≤ 971) :
    IsFloat (k * 2 ^ j) :=
  exists_rational? hk hlow hhigh

theorem IsFloat.neg {q : ℚ} (h : IsFloat q) : IsFloat (-q) := by
  obtain ⟨k, j, rfl, hk, hlow, hhigh⟩ := h.exists_size
  rw [← neg_mul, ← Int.cast_neg]
  exact isFloat_size (by rwa [Int.natAbs_neg]) hlow hhigh

/-- Floats are multiples of the least positive float. -/
theorem IsFloat.exists_mul {q : ℚ} (h : IsFloat q) : ∃ k : Int, q = k * 2 ^ (-1074 : Int) := by
  obtain ⟨k, j, rfl, -, hlow, -⟩ := h.exists_size
  obtain ⟨n, rfl⟩ := Int.le.dest hlow
  refine ⟨k * 2 ^ n, ?_⟩
  rw [zpow_add₀ two_ne_zero, zpow_natCast, mul_comm (2 ^ (-1074 : Int)), ← mul_assoc,
    Int.cast_mul, Int.cast_pow, Int.cast_ofNat]

theorem isFloat_natCast {n : Nat} (hn : n < 2 ^ 53) : IsFloat n := by
  have hsize := isFloat_size (k := n) (j := 0) hn (by decide) (by decide)
  rwa [zpow_zero, mul_one, Int.cast_natCast] at hsize

theorem rational?_ofInteger_natCast {n : Nat} (hn : n < 2 ^ 53) :
    rational? (ofInteger n) = some (n : ℚ) := by
  obtain ⟨x, hx⟩ := isFloat_natCast hn
  exact rational?_ofInteger (n := n) hx

/-- A divisor of an integer that is a float has no more bits. -/
theorem isFloat_of_dvd {m d : Nat} (h : IsFloat m) (hm : m ≠ 0) (hd : d ∣ m) : IsFloat d := by
  obtain ⟨k, j, hkj, hk, -, hj⟩ := h.exists_size
  rcases le_or_gt j 0 with hle | hlt
  · have hsmall : (m : ℚ) ≤ k.natAbs := by
      have hpow : (2 : ℚ) ^ j ≤ 1 := zpow_le_one_of_nonpos₀ one_le_two hle
      have habs : (k : ℚ) ≤ k.natAbs := by
        rw [Nat.cast_natAbs, Int.cast_abs]
        exact le_abs_self _
      calc (m : ℚ) = k * 2 ^ j := hkj
        _ ≤ k.natAbs * 2 ^ j := mul_le_mul_of_nonneg_right habs (zpow_nonneg zero_le_two j)
        _ ≤ k.natAbs * 1 := mul_le_mul_of_nonneg_left hpow (Nat.cast_nonneg _)
        _ = k.natAbs := mul_one _
    have hle' : m ≤ k.natAbs := by exact_mod_cast hsmall
    exact isFloat_natCast (((Nat.le_of_dvd (Nat.pos_of_ne_zero hm) hd).trans hle').trans_lt hk)
  · obtain ⟨i, rfl⟩ := Int.eq_ofNat_of_zero_le hlt.le
    have hint : (m : Int) = k * 2 ^ i := by
      rw [zpow_natCast] at hkj
      exact_mod_cast hkj
    have hnat : m = k.natAbs * 2 ^ i := by
      have habs := congrArg Int.natAbs hint
      rwa [Int.natAbs_natCast, Int.natAbs_mul, Int.natAbs_pow] at habs
    obtain ⟨odd, power, hodd, hpower, rfl⟩ := Nat.dvd_mul.1 (hnat ▸ hd)
    obtain ⟨l, hl, rfl⟩ := (Nat.dvd_prime_pow Nat.prime_two).1 hpower
    have hkpos : 0 < k.natAbs := Nat.pos_of_ne_zero (left_ne_zero_of_mul (hnat ▸ hm))
    have hbits : odd < 2 ^ 53 := (Nat.le_of_dvd hkpos hodd).trans_lt hk
    have hsize := isFloat_size (k := odd) (j := l) hbits (by omega) (by omega)
    rw [zpow_natCast] at hsize
    exact_mod_cast hsize

/-! ## Rounding a positive number -/

/-- A number is `r` units `2^t`, rounded to the nearest count.  It has all bits, unless the unit is
    the least one. -/
structure Counts (q : ℚ) (r : Nat) (t : Int) : Prop where
  rounds : Rounds r (q / 2 ^ t)
  least : -1074 ≤ t
  full : t ≠ -1074 → 2 ^ (t + 52) ≤ q
  lt : q < 2 ^ (t + 53)

/-- A number is rounded to another. -/
def RoundedTo (q v : ℚ) : Prop := ∃ r t, Counts q r t ∧ v = r * 2 ^ t

variable {q v w : ℚ} {r : Nat} {t : Int}

theorem two_zpow_pos (t : Int) : (0 : ℚ) < 2 ^ t := zpow_pos two_pos t

theorem two_zpow_add_natCast (t : Int) (n : Nat) : (2 : ℚ) ^ (t + n) = 2 ^ n * 2 ^ t := by
  rw [zpow_add₀ two_ne_zero, zpow_natCast, mul_comm]

/-- A distance, counted in units. -/
theorem abs_mul_sub (k q : ℚ) (t : Int) : |k * 2 ^ t - q| = |k - q / 2 ^ t| * 2 ^ t := by
  have hpos := two_zpow_pos t
  rw [← abs_of_pos hpos, ← abs_mul, sub_mul, abs_of_pos hpos, div_mul_cancel₀ _ hpos.ne']

/-- No other count is nearer. -/
theorem Counts.near_le (h : Counts q r t) (k : Int) : |r * 2 ^ t - q| ≤ |k * 2 ^ t - q| := by
  rw [abs_mul_sub, abs_mul_sub]
  exact mul_le_mul_of_nonneg_right (h.rounds.near_le k) (two_zpow_pos t).le

theorem Counts.lt_units (h : Counts q r t) : q / 2 ^ t < 2 ^ 53 := by
  rw [div_lt_iff₀ (two_zpow_pos t), ← two_zpow_add_natCast]
  exact h.lt

theorem Counts.units_le (h : Counts q r t) (ht : t ≠ -1074) : 2 ^ 52 ≤ q / 2 ^ t := by
  rw [le_div_iff₀ (two_zpow_pos t), ← two_zpow_add_natCast]
  exact h.full ht

theorem Rounds.le_of_le {x : ℚ} (h : Rounds r x) {k : Nat} (hk : x ≤ k) : r ≤ k := by
  have hnear := (le_abs_self _).trans (h.near_le k)
  rw [Int.cast_natCast, abs_of_nonneg (sub_nonneg.2 hk)] at hnear
  exact_mod_cast (sub_le_sub_iff_right x).1 hnear

theorem Rounds.le_of_ge {x : ℚ} (h : Rounds r x) {k : Nat} (hk : k ≤ x) : k ≤ r := by
  have hnear := (neg_abs_le _).trans' (neg_le_neg (h.near_le k))
  rw [Int.cast_natCast, abs_of_nonpos (sub_nonpos.2 hk), neg_neg] at hnear
  exact_mod_cast (sub_le_sub_iff_right x).1 hnear

/-- A float has at most `2^53` units. -/
theorem Counts.le_two_pow (h : Counts q r t) : r ≤ 2 ^ 53 :=
  h.rounds.le_of_le (by exact_mod_cast h.lt_units.le)

theorem Counts.two_pow_le (h : Counts q r t) (ht : t ≠ -1074) : 2 ^ 52 ≤ r :=
  h.rounds.le_of_ge (by exact_mod_cast h.units_le ht)

/-- **No float is nearer than the rounded number.** -/
theorem RoundedTo.nearest (h : RoundedTo q v) (hw : IsFloat w) : |v - q| ≤ |w - q| := by
  obtain ⟨r, t, hcounts, rfl⟩ := h
  obtain ⟨k, j, rfl, hk, hj, -⟩ := hw.exists_size
  rcases le_or_gt t j with hle | hlt
  · -- the float is a count of the same units
    obtain ⟨n, rfl⟩ := Int.le.dest hle
    have hunits : (k : ℚ) * 2 ^ (t + n) = (k * 2 ^ n : Int) * 2 ^ t := by
      rw [two_zpow_add_natCast]
      push_cast
      ring
    rw [hunits]
    exact hcounts.near_le _
  · -- its units are smaller, so it is below `2^52` units, and these are nearer
    have hfull := hcounts.full (by omega)
    have hsmall : (k : ℚ) * 2 ^ j ≤ 2 ^ (t + 52) := by
      have hk' : (k : ℚ) ≤ 2 ^ 53 := by
        have hle : k ≤ 2 ^ 53 := by omega
        exact_mod_cast hle
      calc (k : ℚ) * 2 ^ j ≤ 2 ^ 53 * 2 ^ j := by gcongr
        _ = 2 ^ (j + 53) := (two_zpow_add_natCast j 53).symm
        _ ≤ 2 ^ (t + 52) := zpow_le_zpow_right₀ one_le_two (by omega)
    have hunits : (2 : ℚ) ^ (t + 52) = 2 ^ 52 * 2 ^ t := two_zpow_add_natCast t 52
    calc |(r : ℚ) * 2 ^ t - q| ≤ |((2 ^ 52 : Int) : ℚ) * 2 ^ t - q| := hcounts.near_le _
      _ = |2 ^ (t + 52) - q| := by rw [hunits, Int.cast_pow, Int.cast_ofNat]
      _ = q - 2 ^ (t + 52) := by rw [abs_sub_comm, abs_of_nonneg (sub_nonneg.2 hfull)]
      _ ≤ q - k * 2 ^ j := sub_le_sub_left hsmall q
      _ ≤ |k * 2 ^ j - q| := by
        rw [abs_sub_comm]
        exact le_abs_self _

/-! ## What rounding keeps -/

/-- A float is rounded to itself. -/
theorem RoundedTo.eq_of_isFloat (h : RoundedTo q v) (hq : IsFloat q) : v = q := by
  have hnear := h.nearest hq
  rw [sub_self, abs_zero] at hnear
  exact sub_eq_zero.1 (abs_nonpos_iff.1 hnear)

theorem RoundedTo.le_of_le (h : RoundedTo q v) (hw : IsFloat w) (hle : q ≤ w) : v ≤ w := by
  have hnear := (le_abs_self _).trans (h.nearest hw)
  rw [abs_of_nonneg (sub_nonneg.2 hle)] at hnear
  exact (sub_le_sub_iff_right q).1 hnear

theorem RoundedTo.le_of_ge (h : RoundedTo q v) (hw : IsFloat w) (hle : w ≤ q) : w ≤ v := by
  have hnear := (neg_abs_le _).trans' (neg_le_neg (h.nearest hw))
  rw [abs_of_nonpos (sub_nonpos.2 hle), neg_neg] at hnear
  exact (sub_le_sub_iff_right q).1 hnear

/-- Counts of units that are integers. -/
theorem exists_natCast_of_nonneg (r : Nat) (ht : 0 ≤ t) : ∃ n : Nat, (r : ℚ) * 2 ^ t = n := by
  obtain ⟨k, rfl⟩ := Int.eq_ofNat_of_zero_le ht
  exact ⟨r * 2 ^ k, by push_cast; rw [zpow_natCast]⟩

/-- **An integer is rounded to an integer.** -/
theorem RoundedTo.exists_natCast {n : Nat} (h : RoundedTo n v) : ∃ m : Nat, v = m := by
  by_cases hn : n < 2 ^ 53
  · exact ⟨n, h.eq_of_isFloat (isFloat_natCast hn)⟩
  · obtain ⟨r, t, hcounts, rfl⟩ := h
    refine exists_natCast_of_nonneg r ?_
    by_contra ht
    have hsmall : (2 : ℚ) ^ (t + 53) ≤ 2 ^ (53 : Int) := zpow_le_zpow_right₀ one_le_two (by omega)
    have hlt : (n : ℚ) < ((2 ^ 53 : Nat) : ℚ) := hcounts.lt.trans_le (by exact_mod_cast hsmall)
    exact hn (Nat.cast_lt.1 hlt)

/-- **A number is rounded to an integer if an integer among the floats is as near.** -/
theorem RoundedTo.exists_natCast_of_near (h : RoundedTo q v) {n : Nat}
    (hn : |(n : ℚ) - q| ≤ |v - q|) : ∃ m : Nat, v = m := by
  obtain ⟨r, t, hcounts, rfl⟩ := h
  rcases le_or_gt 0 t with ht | ht
  · exact exists_natCast_of_nonneg r ht
  · -- counted in units less than one, an integer is even
    obtain ⟨k, rfl⟩ : ∃ k : Nat, t = -(k + 1 : Nat) := ⟨(-t - 1).toNat, by omega⟩
    have hunits : (n : ℚ) = (n * 2 ^ (k + 1) : Int) * 2 ^ (-(k + 1 : Nat) : Int) := by
      have hpow : (2 : ℚ) ^ (k + 1) ≠ 0 := pow_ne_zero _ two_ne_zero
      rw [zpow_neg, zpow_natCast]
      push_cast
      rw [mul_assoc, mul_inv_cancel₀ hpow, mul_one]
    have heven : Even (n * 2 ^ (k + 1) : Int) := by
      rw [pow_succ, ← mul_assoc]
      exact even_two.mul_left _
    have hnear := hn
    rw [hunits, abs_mul_sub, abs_mul_sub] at hnear
    have hsame := hcounts.rounds.eq_of_even heven
      (le_of_mul_le_mul_right hnear (two_zpow_pos _))
    refine ⟨n, ?_⟩
    rw [hunits, hsame, Int.cast_natCast]

/-- **Rounding changes a number by at most one part in `2^53`**, unless it is tiny. -/
theorem RoundedTo.abs_sub_le (h : RoundedTo q v) (hq : 2 ^ (-1022 : Int) ≤ q) :
    |v - q| ≤ q / 2 ^ 53 := by
  obtain ⟨r, t, hcounts, rfl⟩ := h
  have hfull : (2 : ℚ) ^ (t + 52) ≤ q := by
    by_cases ht : t = -1074
    · rw [ht]
      exact hq
    · exact hcounts.full ht
  have hunit : (2 : ℚ) ^ (t + 52) = 2 ^ 52 * 2 ^ t := two_zpow_add_natCast t 52
  calc |(r : ℚ) * 2 ^ t - q| = |r - q / 2 ^ t| * 2 ^ t := abs_mul_sub _ _ _
    _ ≤ 1 / 2 * 2 ^ t := mul_le_mul_of_nonneg_right hcounts.rounds.near (two_zpow_pos t).le
    _ = 2 ^ (t + 52) / 2 ^ 53 := by rw [hunit]; ring
    _ ≤ q / 2 ^ 53 := by gcongr

/-! ## Overflow -/

/-- The least power of two beyond the floats. -/
def limit : ℚ := 2 ^ 1024

/-- The least number that is rounded beyond the floats. -/
def overflow : ℚ := limit - 2 ^ 970

theorem limit_eq (n : Nat) (e : Int) (h : e + n = 1024) : limit = 2 ^ n * 2 ^ e := by
  rw [← two_zpow_add_natCast, h]
  exact (zpow_natCast 2 1024).symm

/-- The overflow, counted in the units of the largest floats. -/
theorem overflow_eq : overflow = (2 ^ 53 - 1 / 2) * 2 ^ (971 : Int) := by
  have hunit : (2 : ℚ) ^ (971 : Int) = 2 * 2 ^ 970 :=
    (zpow_natCast 2 971).trans (pow_succ' 2 970)
  rw [sub_mul, ← limit_eq 53 971 rfl, hunit, ← mul_assoc, one_div_mul_cancel two_ne_zero, one_mul,
    overflow]

theorem overflow_pos : 0 < overflow := by
  rw [overflow_eq]
  exact mul_pos (by norm_num) (two_zpow_pos _)

theorem limit_pos : 0 < limit := pow_pos two_pos 1024

theorem overflow_lt_limit : overflow < limit := sub_lt_self _ (pow_pos two_pos 970)

/-- The largest float is half a unit below the overflow. -/
theorem IsFloat.lt_overflow {q : ℚ} (h : IsFloat q) : q < overflow := by
  obtain ⟨k, j, rfl, hk, -, hj⟩ := h.exists_size
  have hk' : (k : ℚ) ≤ 2 ^ 53 - 1 := by
    have hle : k ≤ 2 ^ 53 - 1 := by omega
    exact_mod_cast hle
  calc (k : ℚ) * 2 ^ j ≤ (2 ^ 53 - 1) * 2 ^ j := mul_le_mul_of_nonneg_right hk' (two_zpow_pos j).le
    _ ≤ (2 ^ 53 - 1) * 2 ^ (971 : Int) :=
      mul_le_mul_of_nonneg_left (zpow_le_zpow_right₀ one_le_two hj) (by norm_num)
    _ < (2 ^ 53 - 1 / 2) * 2 ^ (971 : Int) := mul_lt_mul_of_pos_right (by norm_num) (two_zpow_pos _)
    _ = overflow := overflow_eq.symm

theorem IsFloat.lt_limit {q : ℚ} (h : IsFloat q) : q < limit :=
  h.lt_overflow.trans overflow_lt_limit

/-- **Numbers below the overflow stay below the limit of the floats.** -/
theorem RoundedTo.lt_limit_iff (h : RoundedTo q v) : v < limit ↔ q < overflow := by
  obtain ⟨r, t, hcounts, rfl⟩ := h
  rcases lt_trichotomy t 971 with ht | rfl | ht
  · -- smaller units than the largest: both numbers are less than half the limit
    have hunits : (2 : ℚ) ^ (t + 53) ≤ 2 ^ 52 * 2 ^ (971 : Int) :=
      (zpow_le_zpow_right₀ one_le_two (by omega)).trans_eq (two_zpow_add_natCast 971 52)
    have hhalf : (2 : ℚ) ^ 52 * 2 ^ (971 : Int) < overflow := by
      rw [overflow_eq]
      exact mul_lt_mul_of_pos_right (by norm_num) (two_zpow_pos _)
    have hr : (r : ℚ) ≤ 2 ^ 53 := by exact_mod_cast hcounts.le_two_pow
    have hv : (r : ℚ) * 2 ^ t ≤ 2 ^ (t + 53) :=
      (mul_le_mul_of_nonneg_right hr (two_zpow_pos t).le).trans_eq (two_zpow_add_natCast t 53).symm
    exact iff_of_true (((hv.trans hunits).trans_lt hhalf).trans overflow_lt_limit)
      ((hcounts.lt.trans_le hunits).trans hhalf)
  · have hlt := hcounts.lt_units
    rw [limit_eq 53 971 rfl, mul_lt_mul_iff_left₀ (two_zpow_pos _), overflow_eq,
      ← div_lt_iff₀ (two_zpow_pos _)]
    exact_mod_cast hcounts.rounds.lt_iff (n := 2 ^ 53) (by decide) (by exact_mod_cast hlt)
  · -- larger units: both numbers have more of them than the limit
    have hne : t ≠ -1074 := by omega
    have hunits : limit ≤ 2 ^ 52 * 2 ^ t := by
      rw [limit_eq 52 972 rfl]
      exact mul_le_mul_of_nonneg_left (zpow_le_zpow_right₀ one_le_two ht) (by positivity)
    have hr : (2 : ℚ) ^ 52 ≤ r := by exact_mod_cast hcounts.two_pow_le hne
    have hv : limit ≤ r * 2 ^ t :=
      hunits.trans (mul_le_mul_of_nonneg_right hr (two_zpow_pos t).le)
    have hq : limit ≤ q :=
      (hunits.trans_eq (two_zpow_add_natCast t 52).symm).trans (hcounts.full hne)
    exact iff_of_false (not_lt.2 hv) (not_lt.2 (overflow_lt_limit.le.trans hq))

end Reckoner.Number
