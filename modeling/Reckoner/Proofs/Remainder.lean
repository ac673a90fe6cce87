/-
  The remainder of a division is exact.

  The remainder of two integers is taken exactly, and the float nearest to it is the result.  The
  integers may be far above `2^53`, where most integers are no floats.

  1. **Shifted integers (`shifted_truncated`)** — the integer part of a float is a number below
     `2^53` times a power of two.

  2. **The crux (`Shifted.tmod`)** — so is the remainder of two such integers.  Both are multiples
     of the smaller of the two powers, and so is their remainder.  Counted in this power, the
     remainder is at most the dividend and less than the divisor, and one of the two is below
     `2^53`.  Hence the remainder is a float.

  3. **All operands (`apply_remainder`)** — an operand written with a decimal point is refused, and
     then a divisor without an integer part; any other remainder is exact, smaller than the divisor,
     and has the sign of the dividend unless it is the positive zero.
-/
import Mathlib
import Reckoner.Operator.Meaning
import Reckoner.Proofs.Number.Rational

namespace Reckoner

open Number (ofInteger rational? truncated)

/-! ## Integer parts of floats -/

namespace Number

/-- An integer is a number below `2^53` times a power of two that is not too large for a float. -/
def Shifted (n : Int) : Prop :=
  ∃ (k : Int) (j : Nat), n = k * 2 ^ j ∧ k.natAbs < 2 ^ 53 ∧ j ≤ 971

/-- Integers of this form are floats. -/
theorem Shifted.rational?_ofInteger {n : Int} (h : Shifted n) :
    rational? (ofInteger n) = some (n : ℚ) := by
  obtain ⟨k, j, rfl, hk, hj⟩ := h
  obtain ⟨x, hx⟩ := exists_rational? (j := j) hk (by omega) (by omega)
  refine Number.rational?_ofInteger (x := x) (hx.trans ?_)
  push_cast
  rw [zpow_natCast]

theorem wholePart_le {mantissa : Nat} {exponent : Int} (h : exponent ≤ 0) :
    wholePart mantissa exponent ≤ mantissa := by
  have hzero : exponent.toNat = 0 := by omega
  rw [wholePart, hzero]
  exact (Nat.div_le_self _ _).trans_eq (Nat.mul_one mantissa)

/-- The integer part of a float. -/
theorem shifted_truncated {x : Float} {q : ℚ} (h : rational? x = some q) :
    Shifted (truncated q) := by
  cases represents_of_rational? h with
  | zero sign _ =>
    rw [truncated, if_pos le_rfl, Int.floor_zero]
    exact ⟨0, 0, rfl, by decide, by decide⟩
  | @finite sign m e hpos hfits hexponent hparts =>
    have hm := hfits.mantissa_lt
    rw [truncated_size]
    rcases le_total 0 e with he | he
    · refine ⟨sign.apply m, e.toNat, ?_, by rwa [natAbs_apply], by omega⟩
      have hzero : (-e).toNat = 0 := by omega
      rw [← apply_mul, wholePart, hzero]
      simp
    · refine ⟨sign.apply (wholePart m e), 0, by rw [pow_zero, mul_one], ?_, Nat.zero_le _⟩
      rw [natAbs_apply]
      exact (wholePart_le he).trans_lt hm

theorem tmod_mul_two_pow (n d : Int) (j : Nat) :
    (n * 2 ^ j).tmod (d * 2 ^ j) = n.tmod d * 2 ^ j := by
  rw [mul_comm n, mul_comm d, Int.mul_tmod_mul_of_pos _ _ (by positivity), mul_comm]

theorem natAbs_tmod_lt {n d : Int} {bound : Nat} (hd : d ≠ 0)
    (h : n.natAbs < bound ∨ d.natAbs < bound) : (n.tmod d).natAbs < bound := by
  have hle := Nat.mod_le n.natAbs d.natAbs
  have hlt := Nat.mod_lt n.natAbs (Int.natAbs_pos.2 hd)
  rw [Int.natAbs_tmod]
  omega

/-- **The remainder of shifted integers is a shifted integer.** -/
theorem Shifted.tmod {n d : Int} (hn : Shifted n) (hd : Shifted d) (hzero : d ≠ 0) :
    Shifted (n.tmod d) := by
  obtain ⟨k, j, rfl, hk, hj⟩ := hn
  obtain ⟨l, i, rfl, hl, hi⟩ := hd
  rcases Nat.le_total j i with hle | hle
  · -- counted in the power of the dividend, the remainder is at most the dividend
    obtain ⟨t, rfl⟩ := Nat.exists_eq_add_of_le hle
    have hsplit : l * 2 ^ (j + t) = l * 2 ^ t * 2 ^ j := by ring
    rw [hsplit] at hzero ⊢
    rw [tmod_mul_two_pow]
    exact ⟨_, j, rfl, natAbs_tmod_lt (left_ne_zero_of_mul hzero) (.inl hk), hj⟩
  · -- counted in the power of the divisor, the remainder is less than the divisor
    obtain ⟨t, rfl⟩ := Nat.exists_eq_add_of_le hle
    have hsplit : k * 2 ^ (i + t) = k * 2 ^ t * 2 ^ i := by ring
    rw [hsplit, tmod_mul_two_pow]
    exact ⟨_, i, rfl, natAbs_tmod_lt (left_ne_zero_of_mul hzero) (.inr hl), hi⟩

theorem pos_of_truncated_pos {q : ℚ} (h : 0 < truncated q) : 0 < q := by
  unfold truncated at h
  split at h
  · exact one_pos.trans_le (Int.floor_pos.1 h)
  · exact Int.ceil_pos.1 h

theorem neg_of_truncated_neg {q : ℚ} (h : truncated q < 0) : q < 0 := by
  unfold truncated at h
  split at h
  · next hq => exact absurd h (not_lt.2 (Int.floor_nonneg.2 hq))
  · next hq => exact not_le.1 hq

/-- The remainder of an integer part has the sign of the number, or is zero. -/
theorem sign_tmod {a : ℚ} (d : Int) :
    ofInteger ((truncated a).tmod d) = 0 ∨ 0 < a ∧ 0 < (truncated a).tmod d ∨
      a < 0 ∧ (truncated a).tmod d < 0 := by
  have hsign := Int.sign_tmod (truncated a) d
  rcases lt_trichotomy ((truncated a).tmod d) 0 with hk | hk | hk
  · rw [Int.sign_eq_neg_one_of_neg hk] at hsign
    split at hsign
    · cases hsign
    · exact .inr (.inr ⟨neg_of_truncated_neg (Int.sign_eq_neg_one_iff_neg.1 hsign.symm), hk⟩)
  · rw [hk]
    exact .inl rfl
  · rw [Int.sign_eq_one_of_pos hk] at hsign
    split at hsign
    · cases hsign
    · exact .inr (.inl ⟨pos_of_truncated_pos (Int.sign_eq_one_iff_pos.1 hsign.symm), hk⟩)

end Number

/-! ## The remainder of two numbers -/

namespace Arithmetic

variable {x y : Float} {a b : ℚ}

theorem remainder_of_zero (hy : rational? y = some b) (h : truncated b = 0) :
    remainder x y = .error (.remainderByZero x) := by
  rw [remainder, Number.truncate?_eq hy, h]
  cases Number.truncate? x <;> rfl

theorem remainder_of_ne_zero (hx : rational? x = some a) (hy : rational? y = some b)
    (h : truncated b ≠ 0) :
    remainder x y = .ok (ofInteger ((truncated a).tmod (truncated b))) := by
  rw [remainder, Number.truncate?_eq hx, Number.truncate?_eq hy]
  split
  · next heq => exact (h (Option.some.inj heq)).elim
  · next hd hn =>
    rw [Option.some.inj hd, Option.some.inj hn]
  · next heq _ => cases heq
  · next heq _ => cases heq

theorem remainder_of_some (hx : rational? x = some a) (hy : rational? y = none) :
    remainder x y = .ok (if y.isInf then ofInteger (truncated a) else Number.notANumber) := by
  rw [remainder, Number.truncate?_eq hx, Number.truncate?_of_none hy]

theorem remainder_of_none (hx : rational? x = none)
    (hy : ¬ ∃ b, rational? y = some b ∧ truncated b = 0) :
    remainder x y = .ok Number.notANumber := by
  rw [remainder, Number.truncate?_of_none hx]
  cases hb : rational? y with
  | none => rw [Number.truncate?_of_none hb]
  | some b =>
    rw [Number.truncate?_eq hb]
    split
    · next heq => exact (hy ⟨b, hb, Option.some.inj heq⟩).elim
    · next heq => cases heq
    · next heq => cases heq
    · rfl

end Arithmetic

/-! ## The remainder of two values -/

/-- A value is written with a decimal point. -/
def Value.IsPointed (v : Value) : Prop :=
  ∃ text, v.literal = some text ∧ '.' ∈ text.toList

theorem Value.hasNoPoint_iff (v : Value) : v.hasNoPoint = true ↔ ¬ v.IsPointed := by
  rw [Value.hasNoPoint, Value.IsPointed]
  cases v.literal with
  | none => simp
  | some text => simp

namespace BinaryOperator

theorem apply_remainder_of_isPointed {x y : Value} (h : x.IsPointed ∨ y.IsPointed) :
    apply .remainder x y = .error (.fractionalRemainder x.number y.number) := by
  have hpoint : ¬ (x.hasNoPoint && y.hasNoPoint) = true := by
    rw [Bool.and_eq_true, Value.hasNoPoint_iff, Value.hasNoPoint_iff]
    exact fun hnone => h.elim hnone.1 hnone.2
  exact if_neg hpoint

theorem apply_remainder_of_not_isPointed {x y : Value} (h : ¬ (x.IsPointed ∨ y.IsPointed)) :
    apply .remainder x y = Arithmetic.remainder x.number y.number := by
  have hpoint : (x.hasNoPoint && y.hasNoPoint) = true := by
    rw [Bool.and_eq_true, Value.hasNoPoint_iff, Value.hasNoPoint_iff]
    exact not_or.1 h
  exact if_pos hpoint

/-- **The remainder is exact.**  Of two operands that are numbers, an operand written with a point
    is refused, and then a divisor whose integer part is zero.  Otherwise the integer part of the
    dividend is a multiple of that of the divisor and the result, which is an integer smaller than
    the divisor; it is the positive zero or has the sign of the dividend. -/
theorem apply_remainder {dividend divisor : Value} {a b : ℚ}
    (ha : rational? dividend.number = some a) (hb : rational? divisor.number = some b) :
    (dividend.IsPointed ∨ divisor.IsPointed →
      apply .remainder dividend divisor =
        .error (.fractionalRemainder dividend.number divisor.number)) ∧
    (¬ (dividend.IsPointed ∨ divisor.IsPointed) → truncated b = 0 →
      apply .remainder dividend divisor = .error (.remainderByZero dividend.number)) ∧
    (¬ (dividend.IsPointed ∨ divisor.IsPointed) → truncated b ≠ 0 →
      ∃ (r : Float) (k q : Int), apply .remainder dividend divisor = .ok r ∧
        rational? r = some (k : ℚ) ∧ truncated a = q * truncated b + k ∧
        |k| < |truncated b| ∧ (r = 0 ∨ 0 < a ∧ 0 < k ∨ a < 0 ∧ k < 0)) := by
  refine ⟨apply_remainder_of_isPointed, fun hpoint hzero => ?_, fun hpoint hne => ?_⟩
  · rw [apply_remainder_of_not_isPointed hpoint, Arithmetic.remainder_of_zero hb hzero]
  · have hshifted := (Number.shifted_truncated ha).tmod (Number.shifted_truncated hb) hne
    refine ⟨_, (truncated a).tmod (truncated b), (truncated a).tdiv (truncated b), ?_,
      hshifted.rational?_ofInteger, ?_, ?_, ?_⟩
    · rw [apply_remainder_of_not_isPointed hpoint, Arithmetic.remainder_of_ne_zero ha hb hne]
    · rw [mul_comm, Int.mul_tdiv_add_tmod]
    · have habs := Int.natAbs_tmod (truncated a) (truncated b)
      have hbound := Nat.mod_lt (truncated a).natAbs (Int.natAbs_pos.2 hne)
      rw [Int.abs_eq_natAbs, Int.abs_eq_natAbs, habs]
      exact Int.ofNat_lt.2 hbound
    · exact Number.sign_tmod (truncated b)

/-- A written integer far above `2^53`, by a computed fraction. -/
theorem apply_remainder_large :
    rational? (-1e21) = some (-10 ^ 21) ∧ rational? 7.5 = some (15 / 2) ∧
      ¬ (Value.IsPointed ⟨-1e21, some "-1000000000000000000000"⟩ ∨
        Value.IsPointed (.computed 7.5)) ∧
      truncated (15 / 2) ≠ 0 ∧
      ∃ (r : Float) (k q : Int),
        apply .remainder ⟨-1e21, some "-1000000000000000000000"⟩ (.computed 7.5) = .ok r ∧
          rational? r = some (k : ℚ) ∧ truncated (-10 ^ 21) = q * truncated (15 / 2) + k ∧
          |k| < |truncated (15 / 2)| ∧
          (r = 0 ∨ (0 : ℚ) < -10 ^ 21 ∧ 0 < k ∨ (-10 ^ 21 : ℚ) < 0 ∧ k < 0) := by
  have ha : rational? (-1e21) = some (-10 ^ 21) := by decide +kernel
  have hb : rational? 7.5 = some (15 / 2) := by decide +kernel
  have hpoint : ¬ (Value.IsPointed ⟨-1e21, some "-1000000000000000000000"⟩ ∨
      Value.IsPointed (.computed 7.5)) := by
    rintro (⟨text, htext, hmem⟩ | ⟨text, htext, -⟩)
    · obtain rfl := Option.some.inj htext
      exact absurd hmem (by decide)
    · cases htext
  have hne : truncated (15 / 2) ≠ 0 := by decide +kernel
  exact ⟨ha, hb, hpoint, hne, (apply_remainder ha hb).2.2 hpoint hne⟩

end BinaryOperator

end Reckoner
