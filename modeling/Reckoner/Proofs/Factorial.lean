/-
  Factorials by recursion on floats.

  The factorial can be multiplied out on floats themselves: it is infinite above `170`, one up to
  `1`, and `n · (n - 1)!` otherwise.  On floats, `n - 1` need not be less than `n`.

  1. **Domain (`isNatural_iff`)** — what remains when the negative numbers, the fractions, the
     infinities and not-a-number are taken away are the natural numbers, with both zeros.

  2. **One step (`rational?_sub_one`, `factorialOfNat_eq_mul`)** — up to `2^53` the predecessor is
     exact, and the factorial is the product with that of the predecessor.  This holds across the
     cut-off because `171 · 170!` overflows, and infinity times a positive number is infinity.

  3. **The recursion (`multipliesOut_factorialOfNat`)** — it returns for every natural number: above
     `170` at once, whatever `n - 1` is, and below by induction on the number.  It returns the
     factorial and, being a function (`MultipliesOut.unique`), nothing else.
-/
import Mathlib
import Reckoner.Arithmetic.Counting
import Reckoner.Proofs.Number.Rational

namespace Reckoner.Arithmetic

open Number (infinity ofInteger rational? rational?_one rational?_zero whole?_eq_some_iff)

/-- The recursion on floats returns a result. -/
inductive MultipliesOut : Float → Float → Prop
  | large {n : Float} (h : 170 < n) : MultipliesOut n infinity
  | small {n : Float} (h : ¬ 170 < n) (hn : n ≤ 1) : MultipliesOut n 1
  | step {n r : Float} (h : ¬ 170 < n) (hn : ¬ n ≤ 1) (hr : MultipliesOut (n - 1) r) :
    MultipliesOut n (n * r)

/-- The recursion returns one result at most. -/
theorem MultipliesOut.unique {n r r' : Float} (h : MultipliesOut n r) (h' : MultipliesOut n r') :
    r = r' := by
  induction h generalizing r' with
  | large h =>
    cases h' with
    | large => rfl
    | small h' => exact (h' h).elim
    | step h' => exact (h' h).elim
  | small h hn =>
    cases h' with
    | large h' => exact (h h').elim
    | small => rfl
    | step _ hn' => exact (hn' hn).elim
  | step h hn _ ih =>
    cases h' with
    | large h' => exact (h h').elim
    | small _ hn' => exact (hn hn').elim
    | step _ _ hr' => rw [ih hr']

/-! ## Domain -/

theorem rational?_largestFactorial : rational? 170 = some 170 := by decide +kernel

/-- The natural numbers among the floats. -/
theorem isNatural_iff {n : Float} :
    (∃ k : Nat, rational? n = some (k : ℚ)) ↔
      ¬ (n < 0 ∨ n.isInf = true ∨ n.isNaN = true ∨
        ∃ q, rational? n = some q ∧ ∀ k : Int, q ≠ k) := by
  cases hn : rational? n with
  | none =>
    have hspecial := Number.rational?_eq_none_iff.1 hn
    refine ⟨fun ⟨k, hk⟩ => (nomatch hk), fun h => (h ?_).elim⟩
    rcases hspecial with hinf | hnan
    · exact .inr (.inl hinf)
    · exact .inr (.inr (.inl hnan))
  | some q =>
    have hspecial : ¬ (n.isInf = true ∨ n.isNaN = true) := by
      rw [← Number.rational?_eq_none_iff, hn]
      exact (nomatch ·)
    rw [Number.lt_iff hn rational?_zero]
    constructor
    · rintro ⟨k, hk⟩ hdomain
      obtain rfl := Option.some.inj hk
      rcases hdomain with hneg | hinf | hnan | ⟨q, hq, hfraction⟩
      · exact absurd hneg (not_lt.2 (Nat.cast_nonneg k))
      · exact hspecial (.inl hinf)
      · exact hspecial (.inr hnan)
      · exact hfraction k (Option.some.inj hq).symm
    · intro hdomain
      have hnonneg : 0 ≤ q := not_lt.1 fun hneg => hdomain (.inl hneg)
      have hinteger : ∃ k : Int, q = k := by
        by_contra hfraction
        exact hdomain (.inr (.inr (.inr ⟨q, rfl, not_exists.1 hfraction⟩)))
      obtain ⟨k, rfl⟩ := hinteger
      obtain ⟨k, rfl⟩ := Int.eq_ofNat_of_zero_le (Int.cast_nonneg_iff.1 hnonneg)
      exact ⟨k, congrArg some (Int.cast_natCast k)⟩

theorem factorial_of_isNatural {n : Float} {k : Nat} (h : rational? n = some (k : ℚ)) :
    factorial n = .ok (factorialOfNat k) := by
  have hwhole : Number.whole? n = some (k : Int) := whole?_eq_some_iff.2 h
  rw [factorial, hwhole]

theorem factorial_of_not_isNatural {n : Float} (h : ¬ ∃ k : Nat, rational? n = some (k : ℚ)) :
    factorial n = .error (.factorial n) := by
  rw [factorial]
  split
  · next k hwhole => exact (h ⟨k, whole?_eq_some_iff.1 hwhole⟩).elim
  · rfl
  · rfl

/-! ## One step -/

/-- The predecessor of a number up to `2^53` is exact. -/
theorem rational?_sub_one {n : Float} {k : Nat} (h : rational? n = some ((k + 1 : Nat) : ℚ))
    (hk : k < 2 ^ 53) : rational? (n - 1) = some (k : ℚ) := by
  have hdifference : ((k + 1 : Nat) : ℚ) - 1 = k := by rw [Nat.cast_succ, add_sub_cancel_right]
  obtain ⟨z, hz⟩ := Number.exists_rational? (k := k) (j := 0) hk (by decide) (by decide)
  rw [zpow_zero, mul_one, Int.cast_natCast, ← hdifference] at hz
  rw [Number.rational?_sub h rational?_one hz, hdifference]

/-- A positive number times infinity is infinite. -/
theorem mul_infinity {n : Float} {q : ℚ} (h : rational? n = some q) (hq : 0 < q) :
    n * infinity = infinity := by
  have hmul : n * infinity = .ofModel (.pack (Float.Model.UnpackedFloat.mul
      Float.Model.Format.binary64 n.toModel.unpack infinity.toModel.unpack)) := rfl
  cases Number.represents_of_rational? h with
  | zero sign _ => exact (lt_irrefl 0 hq).elim
  | @finite sign m e hpos _ _ hparts =>
    cases sign with
    | positive =>
      rw [hmul, hparts]
      rfl
    | negative =>
      rw [Number.apply_negative_size] at hq
      exact (lt_asymm (Number.size_pos hpos e) (neg_pos.1 hq)).elim

/-- The first product that overflows. -/
theorem mul_product_largestFactorial :
    ofInteger (largestFactorial + 1 : Nat) * product largestFactorial = infinity := by
  decide +kernel

/-- **The factorial is the product with that of the predecessor**, on both sides of the cut-off. -/
theorem factorialOfNat_eq_mul {n : Float} {k : Nat}
    (h : rational? n = some ((k + 1 : Nat) : ℚ)) :
    factorialOfNat (k + 1) = n * factorialOfNat k := by
  have hn : ofInteger (k + 1 : Nat) = n :=
    Number.ofInteger_eq (n := (k + 1 : Nat)) h (Int.natCast_ne_zero.2 (Nat.succ_ne_zero k))
  rw [factorialOfNat, factorialOfNat]
  rcases lt_trichotomy k largestFactorial with hk | rfl | hk
  · rw [if_pos (Nat.succ_le_of_lt hk), if_pos hk.le, product, hn]
  · rw [if_neg (Nat.not_succ_le_self _), if_pos le_rfl, ← hn, mul_product_largestFactorial]
  · have hpos : (0 : ℚ) < (k + 1 : Nat) := Nat.cast_pos.2 (Nat.succ_pos k)
    rw [if_neg (by omega), if_neg (by omega), mul_infinity h hpos]

/-! ## The recursion -/

theorem largestFactorial_lt_iff {n : Float} {k : Nat} (h : rational? n = some (k : ℚ)) :
    170 < n ↔ largestFactorial < k := by
  rw [Number.lt_iff rational?_largestFactorial h]
  exact Nat.cast_lt (m := largestFactorial)

theorem le_one_iff {n : Float} {k : Nat} (h : rational? n = some (k : ℚ)) : n ≤ 1 ↔ k ≤ 1 := by
  rw [Number.le_iff h rational?_one]
  exact Nat.cast_le_one

/-- The recursion returns the factorial. -/
theorem multipliesOut_factorialOfNat {n : Float} {k : Nat} (h : rational? n = some (k : ℚ)) :
    MultipliesOut n (factorialOfNat k) := by
  induction k generalizing n with
  | zero =>
    have hlarge : ¬ 170 < n := (largestFactorial_lt_iff h).not.2 (by decide)
    exact .small hlarge ((le_one_iff h).2 zero_le_one)
  | succ k ih =>
    by_cases hlarge : largestFactorial < k + 1
    · rw [factorialOfNat, if_neg (not_le.2 hlarge)]
      exact .large ((largestFactorial_lt_iff h).2 hlarge)
    · have hlarge' : ¬ 170 < n := (largestFactorial_lt_iff h).not.2 hlarge
      by_cases hsmall : k + 1 ≤ 1
      · have hone : factorialOfNat (k + 1) = 1 := by
          obtain rfl : k = 0 := by omega
          decide +kernel
        rw [hone]
        exact .small hlarge' ((le_one_iff h).2 hsmall)
      · have hk : k < 2 ^ 53 := by
          rw [largestFactorial] at hlarge
          omega
        rw [factorialOfNat_eq_mul h]
        exact .step hlarge' ((le_one_iff h).not.2 hsmall) (ih (rational?_sub_one h hk))

/-- **The factorial is the recursion on floats.**  It refuses the negative numbers, the fractions,
    the infinities and not-a-number; it is one for both zeros; up to `2^53` it is the product of the
    number with the factorial of its predecessor; and wherever it has a value, the recursion
    returns, and returns this value. -/
theorem factorial_recursion (n : Float) :
    (∀ e, factorial n = .error e ↔ e = .factorial n ∧
      (n < 0 ∨ n.isInf = true ∨ n.isNaN = true ∨
        ∃ q, rational? n = some q ∧ ∀ k : Int, q ≠ k)) ∧
    factorial 0 = .ok 1 ∧ factorial (-0) = .ok 1 ∧
    (∀ k : Nat, rational? n = some (k : ℚ) → 1 ≤ k → k ≤ 2 ^ 53 →
      ∃ r, factorial (n - 1) = .ok r ∧ factorial n = .ok (n * r)) ∧
    (∀ r, factorial n = .ok r → ∀ r', MultipliesOut n r' ↔ r' = r) := by
  refine ⟨fun e => ?_, rfl, by decide +kernel, fun k hn hpos hle => ?_, fun r hr r' => ?_⟩
  · by_cases hnatural : ∃ k : Nat, rational? n = some (k : ℚ)
    · obtain ⟨k, hk⟩ := hnatural
      rw [factorial_of_isNatural hk]
      exact ⟨(nomatch ·), fun h => (isNatural_iff.1 ⟨k, hk⟩ h.2).elim⟩
    · have hdomain := not_not.1 (mt isNatural_iff.2 hnatural)
      rw [factorial_of_not_isNatural hnatural, Except.error.injEq, and_iff_left hdomain, eq_comm]
  · obtain ⟨k, rfl⟩ := Nat.exists_eq_add_of_le' hpos
    refine ⟨factorialOfNat k, factorial_of_isNatural (rational?_sub_one hn (by omega)), ?_⟩
    rw [factorial_of_isNatural hn, factorialOfNat_eq_mul hn]
  · obtain ⟨k, hk⟩ : ∃ k : Nat, rational? n = some (k : ℚ) := by
      by_contra hnatural
      rw [factorial_of_not_isNatural hnatural] at hr
      cases hr
    rw [factorial_of_isNatural hk] at hr
    obtain rfl := Except.ok.inj hr
    have hreturns := multipliesOut_factorialOfNat hk
    exact ⟨fun h => h.unique hreturns, fun h => h ▸ hreturns⟩

/-- The first number above the cut-off. -/
theorem factorial_recursion_overflow :
    rational? 171 = some ((171 : Nat) : ℚ) ∧ (1 ≤ 171 ∧ 171 ≤ 2 ^ 53) ∧
      ∃ r, factorial (171 - 1) = .ok r ∧ factorial 171 = .ok (171 * r) := by
  have hnumber : rational? 171 = some ((171 : Nat) : ℚ) := by decide +kernel
  exact ⟨hnumber, by decide, (factorial_recursion 171).2.2.2.1 171 hnumber (by decide) (by decide)⟩

end Reckoner.Arithmetic
