/-
  Where roots are defined, and how they are reflected.

  1. **Reflection (`absolute_neg`, `neg_neg_iff`)** — the negative of a float has the same absolute
     value, and is negative if the float is positive.  Both hold for all floats, infinite ones
     included.

  2. **Indices (`beq_zero_iff`, `isEvenInteger_iff`)** — the index that is compared with zero is one
     of the two zeros, and the index that is tested for being even stands for twice an integer,
     however large.

  3. **Values (`root_eq_ok_iff`)** — a root that is not refused is the square root or the power of
     the absolute value, or the negative of that power.

  4. **All operands (`apply_root`)** — so the roots of opposite numbers differ in the sign, whatever
     the powers and square roots of floats are.
-/
import Mathlib
import Reckoner.Operator.Meaning
import Reckoner.Proofs.Number.Rational
import Reckoner.Proofs.Number.ReadBack

namespace Reckoner

namespace Number

open Float.Model (UnpackedFloat)

variable {x : Float}

/-! ## Reflection -/

theorem absolute_neg (x : Float) : (-x).abs = x.abs := by
  show Float.ofModel (.pack (.abs (-x).toModel.unpack)) = .ofModel (.pack (.abs x.toModel.unpack))
  rw [unpack_neg]
  cases x.toModel.unpack <;> rfl

theorem unpack_zero : (0 : Float).toModel.unpack = .zero .positive := rfl

theorem neg_neg_iff : -x < 0 ↔ 0 < x := by
  rw [lt_iff_compare, lt_iff_compare, unpack_neg, unpack_zero]
  cases x.toModel.unpack with
  | notANumber => rfl
  | infinity sign => cases sign <;> rfl
  | zero sign => cases sign <;> rfl
  | finite sign mantissa exponent hpos => cases sign <;> rfl

theorem not_neg_of_pos (h : 0 < x) : ¬ x < 0 := by
  rw [lt_iff_compare, unpack_zero] at h ⊢
  cases hparts : x.toModel.unpack with
  | notANumber => exact (nomatch ·)
  | zero sign => cases sign <;> exact (nomatch ·)
  | infinity sign =>
    cases sign with
    | positive => exact (nomatch ·)
    | negative => rw [hparts] at h; cases h
  | finite sign mantissa exponent hpos =>
    cases sign with
    | positive => exact (nomatch ·)
    | negative => rw [hparts] at h; cases h

/-! ## Indices -/

/-- The two floats that are equal to zero. -/
theorem beq_zero_iff : (x == 0) = true ↔ x = 0 ∨ x = -0 := by
  constructor
  · intro h
    have hequal : x.toModel.unpack.compare (0 : Float).toModel.unpack = some .eq := eq_of_beq h
    have hpacked := ofModel_pack_unpack x
    rw [unpack_zero] at hequal
    cases hparts : x.toModel.unpack with
    | notANumber => rw [hparts] at hequal; cases hequal
    | infinity sign => rw [hparts] at hequal; cases sign <;> cases hequal
    | finite sign mantissa exponent hpos => rw [hparts] at hequal; cases sign <;> cases hequal
    | zero sign =>
      rw [hparts] at hpacked
      cases sign with
      | positive => exact .inl hpacked.symm
      | negative => exact .inr hpacked.symm
  · rintro (rfl | rfl)
    · decide +kernel
    · decide +kernel

/-- The float is an even integer, of any size and either sign. -/
def IsEven (x : Float) : Prop := ∃ k : Int, rational? x = some (2 * k : ℚ)

theorem isEvenInteger_iff : isEvenInteger x = true ↔ IsEven x := by
  rw [isEvenInteger, Option.any_eq_true]
  constructor
  · rintro ⟨n, hn, heven⟩
    obtain ⟨k, rfl⟩ := Int.dvd_of_emod_eq_zero (eq_of_beq heven)
    refine ⟨k, ?_⟩
    rw [whole?_eq_some_iff.1 hn, Int.cast_mul, Int.cast_ofNat]
  · rintro ⟨k, hk⟩
    refine ⟨2 * k, whole?_eq_some_iff.2 ?_, beq_iff_eq.2 (Int.mul_emod_right 2 k)⟩
    rw [hk, Int.cast_mul, Int.cast_ofNat]

theorem not_isEven_ne_two (h : ¬ IsEven x) : rational? x ≠ some 2 :=
  fun htwo => h ⟨1, by rw [htwo, Int.cast_one, mul_one]⟩

/-- Both zeros are even. -/
theorem isEven_of_zero (h : x = 0 ∨ x = -0) : IsEven x := by
  rw [← isEvenInteger_iff]
  rcases h with rfl | rfl <;> decide +kernel

end Number

/-! ## Roots -/

namespace Arithmetic

open Number

variable {index radicand : Float}

theorem rootMagnitude_of_two (h : rational? index = some 2) (radicand : Float) :
    rootMagnitude index radicand = radicand.abs.sqrt :=
  if_pos ((beq_iff_rational? rational?_two).2 h)

theorem rootMagnitude_of_ne_two (h : rational? index ≠ some 2) (radicand : Float) :
    rootMagnitude index radicand = radicand.abs.pow (1 / index) :=
  if_neg (mt (beq_iff_rational? rational?_two).1 h)

theorem root_of_zero (h : index = 0 ∨ index = -0) :
    root index radicand = .error (.zeroRoot radicand) :=
  if_pos (beq_zero_iff.2 h)

theorem root_of_even (hzero : ¬ (index = 0 ∨ index = -0)) (hneg : radicand < 0)
    (heven : IsEven index) : root index radicand = .error (.negativeEvenRoot index radicand) := by
  rw [root, if_neg (mt beq_zero_iff.1 hzero), if_pos hneg, if_pos (isEvenInteger_iff.2 heven)]

theorem root_of_neg (hneg : radicand < 0) (heven : ¬ IsEven index) :
    root index radicand = .ok (-rootMagnitude index radicand) := by
  rw [root, if_neg (mt beq_zero_iff.1 (mt isEven_of_zero heven)), if_pos hneg,
    if_neg (mt isEvenInteger_iff.1 heven)]

theorem root_of_not_neg (hzero : ¬ (index = 0 ∨ index = -0)) (hneg : ¬ radicand < 0) :
    root index radicand = .ok (rootMagnitude index radicand) := by
  rw [root, if_neg (mt beq_zero_iff.1 hzero), if_neg hneg]

/-- The roots that are refused. -/
theorem root_eq_error_iff {e : DomainError} :
    root index radicand = .error e ↔
      ((index = 0 ∨ index = -0) ∧ e = .zeroRoot radicand) ∨
      (¬ (index = 0 ∨ index = -0) ∧ radicand < 0 ∧ IsEven index ∧
        e = .negativeEvenRoot index radicand) := by
  by_cases hzero : index = 0 ∨ index = -0
  · rw [root_of_zero hzero, Except.error.injEq, eq_comm, and_iff_right hzero,
      or_iff_left fun h => h.1 hzero]
  · rw [and_iff_right hzero, or_iff_right fun h => hzero h.1]
    by_cases hneg : radicand < 0
    · rw [and_iff_right hneg]
      by_cases heven : IsEven index
      · rw [root_of_even hzero hneg heven, Except.error.injEq, eq_comm, and_iff_right heven]
      · rw [root_of_neg hneg heven]
        exact iff_of_false (nomatch ·) fun h => heven h.1
    · rw [root_of_not_neg hzero hneg]
      exact iff_of_false (nomatch ·) fun h => hneg h.1

theorem root_eq_ok_iff_of_neg {result : Float} (hneg : radicand < 0) :
    root index radicand = .ok result ↔
      ¬ IsEven index ∧ result = -(radicand.abs.pow (1 / index)) := by
  by_cases heven : IsEven index
  · rw [iff_false_right fun h => h.1 heven]
    intro h
    have herror : ∃ e, root index radicand = .error e := by
      by_cases hzero : index = 0 ∨ index = -0
      · exact ⟨_, root_of_zero hzero⟩
      · exact ⟨_, root_of_even hzero hneg heven⟩
    obtain ⟨e, he⟩ := herror
    rw [he] at h
    cases h
  · rw [root_of_neg hneg heven, rootMagnitude_of_ne_two (not_isEven_ne_two heven),
      Except.ok.injEq, eq_comm, and_iff_right heven]

/-- **The value of a root.**  Its size is the square root of the absolute value, or else the power
    with the inverse of the index; a negative radicand gives it the negative sign. -/
theorem root_eq_ok_iff {result : Float} :
    root index radicand = .ok result ↔
      (¬ (index = 0 ∨ index = -0) ∧ ¬ radicand < 0 ∧
        (rational? index = some 2 ∧ result = radicand.abs.sqrt ∨
          rational? index ≠ some 2 ∧ result = radicand.abs.pow (1 / index))) ∨
      (¬ IsEven index ∧ radicand < 0 ∧ result = -(radicand.abs.pow (1 / index))) := by
  by_cases hneg : radicand < 0
  · rw [root_eq_ok_iff_of_neg hneg, and_iff_right hneg, or_iff_right fun h => h.2.1 hneg]
  · rw [or_iff_left fun h => hneg h.2.1, and_iff_right hneg]
    by_cases hzero : index = 0 ∨ index = -0
    · rw [root_of_zero hzero]
      exact iff_of_false (nomatch ·) fun h => h.1 hzero
    · rw [root_of_not_neg hzero hneg, Except.ok.injEq, eq_comm, and_iff_right hzero]
      by_cases htwo : rational? index = some 2
      · rw [rootMagnitude_of_two htwo, and_iff_right htwo, or_iff_left fun h => h.1 htwo]
      · rw [rootMagnitude_of_ne_two htwo, and_iff_right htwo, or_iff_right fun h => htwo h.1]

end Arithmetic

open Number Arithmetic

/-- **Where roots are defined, and how they are reflected.**  The root of degree zero is refused,
    and that of an even degree of a negative number.  Any other index, not-a-number included, has
    opposite roots of opposite numbers: the power of the absolute value with the inverse of the
    index, and its negative. -/
theorem BinaryOperator.apply_root (a b : Value) :
    (∀ e, BinaryOperator.root.apply a b = .error e ↔
      ((a.number = 0 ∨ a.number = -0) ∧ e = .zeroRoot b.number) ∨
      (¬ (a.number = 0 ∨ a.number = -0) ∧ b.number < 0 ∧ IsEven a.number ∧
        e = .negativeEvenRoot a.number b.number)) ∧
    (¬ IsEven a.number → 0 < b.number → ∀ c : Value, c.number = -b.number →
      BinaryOperator.root.apply a b = .ok (b.number.abs.pow (1 / a.number)) ∧
        BinaryOperator.root.apply a c = .ok (-(b.number.abs.pow (1 / a.number)))) := by
  refine ⟨fun e => root_eq_error_iff, fun heven hpos c hc => ⟨?_, ?_⟩⟩
  · have htwo := not_isEven_ne_two heven
    exact root_eq_ok_iff.2
      (.inl ⟨mt isEven_of_zero heven, not_neg_of_pos hpos, .inr ⟨htwo, rfl⟩⟩)
  · have hneg : c.number < 0 := hc ▸ neg_neg_iff.2 hpos
    have hsize : b.number.abs = c.number.abs := by rw [hc, absolute_neg]
    exact root_eq_ok_iff.2 (.inr ⟨heven, hneg, by rw [hsize]⟩)

/-- The cubic roots of eight and of its negative. -/
theorem BinaryOperator.apply_root_cubic :
    (¬ IsEven 3 ∧ (0 : Float) < 8) ∧
      BinaryOperator.root.apply (.computed 3) (.computed 8) =
          .ok ((8 : Float).abs.pow (1 / 3)) ∧
        BinaryOperator.root.apply (.computed 3) (.computed (-8)) =
          .ok (-((8 : Float).abs.pow (1 / 3))) := by
  have hodd : ¬ IsEven 3 := by
    rw [← isEvenInteger_iff]
    decide +kernel
  have hpos : (0 : Float) < 8 := by decide +kernel
  exact ⟨⟨hodd, hpos⟩,
    (BinaryOperator.apply_root (.computed 3) (.computed 8)).2 hodd hpos (.computed (-8)) rfl⟩

end Reckoner
