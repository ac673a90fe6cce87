/-
  How far selections are counted.

  The number of unordered selections is computed as a quotient of factorials, each of them rounded,
  so it is not the binomial coefficient in general, even where this is a float.

  1. **Up to `22` (`coefficient_exact`)** — the factorial of the whole is a float, so the others
     are, as divisors of it, and so are their product and the quotient.  Nothing is rounded.

  2. **Up to `170` (`coefficient_within`)** — the factorials of `i` and `j` and their product are
     within `i + j + 1` roundings, so the quotient is within `2 (i + j) + 2`.  It is exact again
     where nothing or everything is selected.

  3. **Above `170` (`infinity_div_factorials`)** — the dividend is infinite.  So is the quotient, as
     long as the divisor is finite, and otherwise it is not a number.
-/
import Mathlib
import Reckoner.Proofs.Selections

namespace Reckoner.Arithmetic

open Number

variable {i j : Nat}

/-! ## Quotients of finite factorials -/

theorem choose_dvd_factorial (i j : Nat) : (i + j).choose i ∣ (i + j).factorial := by
  have hproduct := Nat.choose_mul_factorial_mul_factorial (Nat.le_add_right i j)
  exact ⟨_, by rw [← hproduct, Nat.mul_assoc]⟩

/-- **Nothing is rounded if the factorial of the whole is a float.** -/
theorem coefficient_exact (h : IsFloat ((i + j).factorial : ℚ)) :
    rational? (product (i + j) / (product i * product j)) = some ((i + j).choose i : ℚ) := by
  have hfloat : ∀ {d}, d ∣ (i + j).factorial → IsFloat (d : ℚ) :=
    isFloat_of_dvd h (Nat.factorial_ne_zero _)
  have hi := rational?_product (hfloat (Nat.factorial_dvd_factorial (Nat.le_add_right i j)))
  have hj := rational?_product (hfloat (Nat.factorial_dvd_factorial (Nat.le_add_left j i)))
  have hipos : (0 : ℚ) < i.factorial := Nat.cast_pos.2 i.factorial_pos
  have hjpos : (0 : ℚ) < j.factorial := Nat.cast_pos.2 j.factorial_pos
  have hdivisor : rational? (product i * product j) = some (i.factorial * j.factorial : ℚ) := by
    refine (rounding_mul hi hj hipos hjpos).eq_of_isFloat ?_
    exact_mod_cast hfloat (Nat.factorial_mul_factorial_dvd_factorial_add i j)
  have hquotient := rounding_div (rational?_product h) hdivisor
    (Nat.cast_pos.2 (i + j).factorial_pos) (mul_pos hipos hjpos)
  rw [← Nat.cast_add_choose] at hquotient
  exact hquotient.eq_of_isFloat (hfloat (choose_dvd_factorial i j))

/-- The divisor, as far as the whole has a finite factorial. -/
theorem divisor_within (h : i + j ≤ largestFactorial) :
    ∃ v, rational? (product i * product j) = some v ∧
      Within (i + j + 1) v (i.factorial * j.factorial : ℚ) := by
  obtain ⟨v, hv, hi⟩ := product_within ((Nat.le_add_right i j).trans h)
  obtain ⟨w, hw, hj⟩ := product_within ((Nat.le_add_left j i).trans h)
  have hbound : i.factorial * j.factorial ≤ Nat.factorial 170 :=
    (Nat.le_of_dvd (i + j).factorial_pos (Nat.factorial_mul_factorial_dvd_factorial_add i j)).trans
      (Nat.factorial_le h)
  have hlow : 1 ≤ i.factorial * j.factorial := Nat.mul_pos i.factorial_pos j.factorial_pos
  rw [largestFactorial] at h
  exact (rounding_mul hv hw hi.pos_left hj.pos_left).within (hi.mul hj) (by omega)
    (by exact_mod_cast hlow) (by exact_mod_cast hbound)

/-- **The quotient is within two roundings for each factor of the whole, and two more.** -/
theorem coefficient_within (h : i + j ≤ largestFactorial) :
    ∃ v, rational? (product (i + j) / (product i * product j)) = some v ∧
      Within (2 * (i + j) + 2) v ((i + j).choose i : ℚ) := by
  obtain ⟨v, hv, hwhole⟩ := product_within h
  obtain ⟨w, hw, hparts⟩ := divisor_within h
  have hquotient := hwhole.div hparts
  rw [← Nat.cast_add_choose, ← Nat.add_assoc, ← two_mul] at hquotient
  have hbound : (i + j).choose i ≤ Nat.factorial 170 :=
    (Nat.le_of_dvd (i + j).factorial_pos (choose_dvd_factorial i j)).trans (Nat.factorial_le h)
  have hlow : 1 ≤ (i + j).choose i := Nat.choose_pos (Nat.le_add_right i j)
  rw [largestFactorial] at h
  exact (rounding_div hv hw hwhole.pos_left hparts.pos_left).within hquotient (by omega)
    (by exact_mod_cast hlow) (by exact_mod_cast hbound)

/-- Equal numbers are divided to one. -/
theorem div_eq_one {x y : Float} {q : ℚ} (hx : rational? x = some q) (hy : rational? y = some q)
    (hq : 0 < q) : x / y = 1 := by
  have hround := rounding_div hx hy hq hq
  rw [div_self hq.ne'] at hround
  have hone : rational? (x / y) = some ((1 : Int) : ℚ) := by
    rw [hround.eq_of_isFloat ⟨1, rational?_one⟩, Int.cast_one]
  rw [← ofInteger_eq hone one_ne_zero]
  decide +kernel

/-- Nothing and everything are selected in one way. -/
theorem coefficient_eq_one (h : i + j ≤ largestFactorial) (hzero : i = 0 ∨ j = 0) :
    product (i + j) / (product i * product j) = 1 := by
  have hnothing : ∀ {k}, k ≤ largestFactorial → product k / (product 0 * product k) = 1 := by
    intro k hk
    obtain ⟨v, hv, hwithin⟩ := product_within hk
    have hproduct := rounding_mul rational?_one hv one_pos hwithin.pos_left
    rw [one_mul] at hproduct
    exact div_eq_one hv (hproduct.eq_of_isFloat ⟨_, hv⟩) hwithin.pos_left
  rcases hzero with rfl | rfl
  · rw [Nat.zero_add] at h ⊢
    exact hnothing h
  · rw [product_comm]
    exact hnothing h

/-- The distance of the quotient from the coefficient. -/
theorem coefficient_error (h : i + j ≤ largestFactorial) :
    ∃ q, rational? (product (i + j) / (product i * product j)) = some q ∧
      |q - (i + j).choose i| ≤ (2 * (i + j : Nat) + 3) / 2 ^ 53 * (i + j).choose i := by
  obtain ⟨q, hq, hwithin⟩ := coefficient_within h
  have herror := hwithin.abs_sub_le (by rw [largestFactorial] at h; omega)
  have hroundings : ((2 * (i + j) + 2 : Nat) : ℚ) + 1 = 2 * (i + j : Nat) + 3 := by
    push_cast
    ring
  rw [hroundings] at herror
  exact ⟨q, hq, herror⟩

/-- The quotient of the factorials as they are taken. -/
theorem coefficient_eq (h : i + j ≤ largestFactorial) :
    factorialOfNat (i + j) / (factorialOfNat i * factorialOfNat j) =
      product (i + j) / (product i * product j) := by
  rw [factorialOfNat_of_le h, factorialOfNat_of_le ((Nat.le_add_right i j).trans h),
    factorialOfNat_of_le ((Nat.le_add_left j i).trans h)]

/-! ## Infinite factorials -/

/-- The divisor is a positive number or infinite. -/
theorem divisor_cases (i j : Nat) :
    (∃ v, rational? (factorialOfNat i * factorialOfNat j) = some v ∧ 0 < v) ∨
      factorialOfNat i * factorialOfNat j = infinity := by
  rcases le_or_gt i largestFactorial with hi | hi
  · rcases le_or_gt j largestFactorial with hj | hj
    · obtain ⟨v, hv, hwithin⟩ := product_within hi
      obtain ⟨w, hw, hwithin'⟩ := product_within hj
      rw [factorialOfNat_of_le hi, factorialOfNat_of_le hj]
      have hproduct := hwithin.mul hwithin'
      have hlow : 1 ≤ i.factorial * j.factorial := Nat.mul_pos i.factorial_pos j.factorial_pos
      have hnormal : 2 ^ (-1022 : Int) ≤ v * w := by
        rw [largestFactorial] at hi hj
        exact hproduct.normal (by omega) (by exact_mod_cast hlow)
      cases rounding_mul hv hw hwithin.pos_left hwithin'.pos_left with
      | number h _ hz => exact .inl ⟨_, hz, (Within.of_roundedTo h hnormal).pos_left⟩
      | overflow _ _ hz => exact .inr hz
    · rw [product_comm]
      exact .inr (factorialOfNat_mul_of_lt hj i)
  · exact .inr (factorialOfNat_mul_of_lt hi j)

/-- **An infinite factorial is divided to infinity, or to no number at all.** -/
theorem infinity_div_factorials (i j : Nat) :
    infinity / (factorialOfNat i * factorialOfNat j) = infinity ∨
      infinity / (factorialOfNat i * factorialOfNat j) = notANumber := by
  rcases divisor_cases i j with ⟨v, hv, hpos⟩ | hinfinite
  · exact .inl (infinity_div hv hpos)
  · rw [hinfinite]
    exact .inr infinity_div_infinity

theorem infinity_div_factorials_of_lt (h : largestFactorial < i ∨ largestFactorial < j) :
    infinity / (factorialOfNat i * factorialOfNat j) = notANumber := by
  have hinfinite : factorialOfNat i * factorialOfNat j = infinity := by
    rcases h with hi | hj
    · exact factorialOfNat_mul_of_lt hi j
    · rw [product_comm]
      exact factorialOfNat_mul_of_lt hj i
  rw [hinfinite, infinity_div_infinity]

/-! ## Selections -/

section
variable {n r : Float} {a b : Nat}

/-- **How far selections are counted.**  They are counted exactly up to `22`, up to `170` they are
    rounded a few times, and above they are infinite or no numbers. -/
theorem combinations_count (hn : rational? n = some (a : ℚ)) (hr : rational? r = some (b : ℚ))
    (hle : b ≤ a) :
    ∃ z, combinations n r = .ok z ∧
      (a ≤ 22 → rational? z = some (a.choose b : ℚ)) ∧
      (a ≤ 170 → (b = 0 ∨ b = a → z = 1) ∧
        ∃ q, rational? z = some q ∧ |q - a.choose b| ≤ (2 * a + 3) / 2 ^ 53 * a.choose b) ∧
      (170 < a → (z = infinity ∨ z = notANumber) ∧
        (170 < b ∨ 170 < a - b → z = notANumber)) := by
  obtain ⟨c, hc, horder⟩ := exists_sub_natCast hn hr hle
  refine ⟨_, combinations_eq hn hr hc, ?_⟩
  rcases le_or_gt a largestFactorial with ha | ha
  · have hexact : rational? (n - r) = some ((a - b : Nat) : ℚ) :=
      rational?_sub_natCast hn hr hle (ha.trans_lt (by decide))
    obtain rfl : a - b = c := by exact_mod_cast Option.some.inj (hexact.symm.trans hc)
    obtain ⟨c, rfl⟩ := Nat.exists_eq_add_of_le hle
    rw [Nat.add_sub_cancel_left, coefficient_eq ha]
    exact ⟨fun h => coefficient_exact (isFloat_factorial h),
      fun _ => ⟨fun h => coefficient_eq_one ha (h.imp_right Nat.left_eq_add.1),
        coefficient_error ha⟩, fun h => absurd h ha.not_gt⟩
  · have hlarge : 170 < a := ha
    rw [factorialOfNat_of_lt ha]
    refine ⟨fun h => by omega, fun h => by omega, fun _ => ⟨infinity_div_factorials b c, ?_⟩⟩
    rintro (hb | hrest)
    · exact infinity_div_factorials_of_lt (.inl hb)
    · have hc : 171 ≤ c := (horder 171 (isFloat_natCast (by decide))).2 hrest
      exact infinity_div_factorials_of_lt (.inr hc)

/-- The largest coefficient up to `22`, and a coefficient above `170`. -/
theorem combinations_count_at :
    ((rational? 22 = some ((22 : Nat) : ℚ) ∧ rational? 11 = some ((11 : Nat) : ℚ) ∧ 11 ≤ 22) ∧
      ∃ z, combinations 22 11 = .ok z ∧ rational? z = some ((Nat.choose 22 11 : Nat) : ℚ)) ∧
    (rational? 342 = some ((342 : Nat) : ℚ) ∧ rational? 171 = some ((171 : Nat) : ℚ) ∧ 171 ≤ 342) ∧
      combinations 342 171 = .ok notANumber := by
  have h22 : rational? 22 = some ((22 : Nat) : ℚ) := by decide +kernel
  have h11 : rational? 11 = some ((11 : Nat) : ℚ) := by decide +kernel
  have h342 : rational? 342 = some ((342 : Nat) : ℚ) := by decide +kernel
  have h171 : rational? 171 = some ((171 : Nat) : ℚ) := by decide +kernel
  obtain ⟨z, hz, hexact, -, -⟩ := combinations_count h22 h11 (by decide)
  obtain ⟨w, hw, -, -, hlarge⟩ := combinations_count h342 h171 (by decide)
  obtain rfl := (hlarge (by decide)).2 (.inl (by decide))
  exact ⟨⟨⟨h22, h11, by decide⟩, z, hz, hexact le_rfl⟩, ⟨h342, h171, by decide⟩, hw⟩

/-- One out of `171` and one out of `24`, whose coefficients are floats. -/
theorem combinations_one_inexact :
    combinations 171 1 = .ok infinity ∧ combinations 24 1 = .ok 23.999999999999996 ∧
      ¬ (∃ z, combinations 171 1 = .ok z ∧ rational? z = some ((Nat.choose 171 1 : Nat) : ℚ)) ∧
      ¬ ∃ z, combinations 24 1 = .ok z ∧ rational? z = some ((Nat.choose 24 1 : Nat) : ℚ) := by
  have hinfinite : combinations 171 1 = .ok infinity := by decide +kernel
  have hfraction : combinations 24 1 = .ok 23.999999999999996 := by decide +kernel
  have hinfinity : rational? infinity = none := rational?_infinity _
  refine ⟨hinfinite, hfraction, ?_, ?_⟩
  · rintro ⟨z, hz, hcount⟩
    obtain rfl := Except.ok.inj (hinfinite.symm.trans hz)
    rw [hinfinity] at hcount
    cases hcount
  · rintro ⟨z, hz, hcount⟩
    obtain rfl := Except.ok.inj (hfraction.symm.trans hz)
    revert hcount
    decide +kernel

end

end Reckoner.Arithmetic
