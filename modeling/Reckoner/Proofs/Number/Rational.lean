/-
  The numbers that floats are.

  A float that is neither infinite nor not-a-number is a rational number `± m · 2^e`.

  1. **Which numbers are floats (`exists_rational?`)** — all `k · 2^j` with `k` below `2^53` and `j`
     between `-1074` and `971`.

  2. **Exact results (`rational?_ofInteger`, `rational?_sub`)** — an integer that is a float is
     rounded to this float, and a difference that is a float is the result of the subtraction.

  3. **Order (`lt_iff`, `le_iff`, `beq_iff_rational?`)** — comparing floats part by part compares
     their numbers.

  4. **Integers (`truncate?_eq`, `whole?_eq_some_iff`)** — the integer views of a float are those of
     its number.
-/
import Mathlib
import Reckoner.Number.Exact
import Reckoner.Proofs.Number.Canonical

namespace Reckoner.Number

open Float.Model (Format UnpackedFloat totalExponent)
open Float.Model.UnpackedFloat

/-! ## The number of a float -/

/-- The number that a float is, unless it is infinite or not a number. -/
def rational? (x : Float) : Option ℚ :=
  match x.toModel.unpack with
  | .zero _ => some 0
  | .finite sign mantissa exponent _ => some (sign.apply mantissa * 2 ^ exponent)
  | .infinity _ => none
  | .notANumber => none

/-- A float is a number: a zero, or a number in canonical form. -/
inductive Represents (x : Float) : ℚ → Prop
  | zero (sign : Sign) (h : x.toModel.unpack = .zero sign) : Represents x 0
  | finite (sign : Sign) {mantissa : Nat} {exponent : Int} (hpos : 0 < mantissa)
      (hfits : Fits mantissa exponent) (hexponent : exponent ≤ 971)
      (h : x.toModel.unpack = .finite sign mantissa exponent hpos) :
      Represents x (sign.apply mantissa * 2 ^ exponent)

variable {x y : Float} {a b q : ℚ}

/-- What is unpacked fits. -/
theorem represents_of_rational? (h : rational? x = some q) : Represents x q := by
  unfold rational? at h
  split at h
  · next sign hunpack =>
    obtain rfl := Option.some.inj h
    exact .zero sign hunpack
  · next sign mantissa exponent hpos hunpack =>
    obtain rfl := Option.some.inj h
    exact .finite sign hpos (fits_of_unpack hunpack) (le_of_unpack hunpack) hunpack
  · cases h
  · cases h

theorem rational?_of_unpack_zero {sign : Sign} (h : x.toModel.unpack = .zero sign) :
    rational? x = some 0 := by
  rw [rational?, h]

theorem rational?_of_unpack_finite {sign : Sign} {mantissa : Nat} {exponent : Int}
    {hpos : 0 < mantissa} (h : x.toModel.unpack = .finite sign mantissa exponent hpos) :
    rational? x = some ((sign.apply mantissa : ℚ) * 2 ^ exponent) := by
  rw [rational?, h]

theorem rational?_zero : rational? 0 = some 0 := by decide +kernel

theorem rational?_one : rational? 1 = some 1 := by decide +kernel

theorem rational?_two : rational? 2 = some 2 := by decide +kernel

example : rational? 0.1 = some (3602879701896397 / 2 ^ 55) := by decide +kernel

/-- The parts of a float without a number. -/
theorem exists_infinity_or_notANumber (h : rational? x = none) :
    (∃ sign, x.toModel.unpack = .infinity sign) ∨ x.toModel.unpack = .notANumber := by
  unfold rational? at h
  split at h
  · cases h
  · cases h
  · next sign hparts => exact .inl ⟨sign, hparts⟩
  · next hparts => exact .inr hparts

/-- A float without a number is infinite or not a number. -/
theorem rational?_eq_none_iff : rational? x = none ↔ x.isInf = true ∨ x.isNaN = true := by
  show _ ↔ x.toModel.unpack.isInf = true ∨ x.toModel.unpack.isNaN = true
  rw [rational?]
  cases x.toModel.unpack with
  | infinity sign => simp [UnpackedFloat.isInf]
  | notANumber => simp [UnpackedFloat.isNaN]
  | zero sign => simp [UnpackedFloat.isInf, UnpackedFloat.isNaN]
  | finite sign mantissa exponent hpos => simp [UnpackedFloat.isInf, UnpackedFloat.isNaN]

/-! ## Which numbers are floats -/

theorem unpack_pack_zero (sign : Sign) :
    (Float.Model.pack (.zero sign)).unpack = .zero sign := by
  cases sign with
  | positive => rfl
  | negative => rfl

/-- A number below `2^53` can be shifted to its canonical form. -/
theorem fits_shift {n : Nat} {j : Int} (hn : n < 2 ^ 53) (hpos : 0 < n) (hj : -1074 ≤ j) {t : Nat}
    (ht : t = min (52 - n.log2) (j + 1074).toNat) : Fits (n * 2 ^ t) (j - t) := by
  have hlog : n.log2 < 53 := (Nat.log2_lt hpos.ne').2 hn
  rw [Fits, totalExponent_mul_two_pow hpos]
  simp only [totalExponent, Format.targetExponent, Format.minExponent, Format.mantissaBits]
  omega

/-- **Integers below `2^53` times powers of two are floats.** -/
theorem exists_rational? {k j : Int} (hk : k.natAbs < 2 ^ 53) (hlow : -1074 ≤ j) (hhigh : j ≤ 971) :
    ∃ x, rational? x = some ((k : ℚ) * 2 ^ j) := by
  by_cases hzero : k = 0
  · refine ⟨.ofModel (.pack (.zero .positive)), ?_⟩
    rw [hzero, Int.cast_zero, zero_mul]
    exact rational?_of_unpack_zero (unpack_pack_zero .positive)
  · obtain ⟨sign, n, rfl⟩ := exists_apply k
    rw [natAbs_apply] at hk
    have hpos : 0 < n := by
      have hne := Int.natAbs_ne_zero.2 hzero
      rw [natAbs_apply] at hne
      exact Nat.pos_of_ne_zero hne
    obtain ⟨t, ht⟩ : ∃ t, t = min (52 - n.log2) (j + 1074).toNat := ⟨_, rfl⟩
    have hunpack := unpack_pack_of_fits sign (Nat.mul_pos hpos (Nat.two_pow_pos t))
      (fits_shift hk hpos hlow ht) (by omega)
    refine ⟨.ofModel (.pack _), (rational?_of_unpack_finite hunpack).trans (congrArg some ?_)⟩
    have hshift : (2 : ℚ) ^ j = 2 ^ t * 2 ^ (j - t) := by
      rw [← zpow_natCast, ← zpow_add₀ two_ne_zero, add_sub_cancel]
    push_cast
    rw [apply_mul, hshift]
    push_cast
    ring

/-! ## Exact results -/

/-- **A number that is a float is rounded to itself.** -/
theorem rational?_normalize {n e : Int} (hx : rational? x = some ((n : ℚ) * 2 ^ e))
    (zeroSign : Sign) :
    rational? (.ofModel (.pack (UnpackedFloat.normalize Format.binary64 n e zeroSign))) =
      some ((n : ℚ) * 2 ^ e) := by
  by_cases hn : n = 0
  · have hnormalize : UnpackedFloat.normalize Format.binary64 n e zeroSign = .zero zeroSign := by
      rw [hn]
      rfl
    rw [hnormalize, hn, Int.cast_zero, zero_mul]
    exact rational?_of_unpack_zero (unpack_pack_zero zeroSign)
  · have hne : (n : ℚ) * 2 ^ e ≠ 0 :=
      mul_ne_zero (Int.cast_ne_zero.2 hn) (zpow_ne_zero _ two_ne_zero)
    generalize hq : (n : ℚ) * 2 ^ e = q at hx hne
    cases represents_of_rational? hx with
    | zero sign _ => exact (hne rfl).elim
    | finite sign hpos hfits hexponent hunpack =>
      rw [normalize_eq sign hpos hfits zeroSign hq]
      exact rational?_of_unpack_finite (unpack_pack_of_fits sign hpos hfits hexponent)

/-- **Integers that are floats are exact.** -/
theorem rational?_ofInteger {n : Int} (hx : rational? x = some (n : ℚ)) :
    rational? (ofInteger n) = some (n : ℚ) := by
  rw [← size_zero n] at hx ⊢
  exact rational?_normalize hx .positive

/-- The only float that is an integer other than zero. -/
theorem ofInteger_eq {n : Int} (hx : rational? x = some (n : ℚ)) (hn : n ≠ 0) :
    ofInteger n = x := by
  have hne : (n : ℚ) ≠ 0 := Int.cast_ne_zero.2 hn
  generalize hq : (n : ℚ) = q at hx hne
  cases represents_of_rational? hx with
  | zero sign _ => exact (hne rfl).elim
  | @finite sign mantissa exponent hpos hfits hexponent hunpack =>
    have hnormalize := normalize_eq sign hpos hfits .positive ((size_zero n).trans hq)
    rw [← ofModel_pack_unpack x, hunpack, ← hnormalize]
    rfl

/-- What a subtraction rounds: the difference of the two sizes at the smaller exponent. -/
theorem sub_finite_finite (sign sign' : Sign) {m m' : Nat} {e e' : Int} (hpos : 0 < m)
    (hpos' : 0 < m') :
    sub Format.binary64 (.finite sign m e hpos) (.finite sign' m' e' hpos') =
      UnpackedFloat.normalize Format.binary64
        (sign.apply m * 2 ^ (e - e').toNat - sign'.apply m' * 2 ^ (e' - e).toNat) (min e e')
        .positive := by
  have hshift : (e - min e e').toNat = (e - e').toNat := by omega
  have hshift' : (e' - min e e').toNat = (e' - e).toNat := by omega
  rw [sub]
  simp only [decreaseExponent, hshift, hshift', Nat.shiftLeft_eq, ← apply_mul]
  push_cast
  rfl

/-- A difference of two sizes, counted at the smaller exponent. -/
theorem sub_size (sign sign' : Sign) (m m' : Nat) (e e' : Int) :
    (sign.apply m : ℚ) * 2 ^ e - sign'.apply m' * 2 ^ e' =
      (sign.apply m * 2 ^ (e - e').toNat - sign'.apply m' * 2 ^ (e' - e).toNat : Int) *
        2 ^ min e e' := by
  rw [size_eq _ e e', size_eq _ e' e, min_comm e' e, ← sub_mul, ← Int.cast_sub]

/-- **A difference that is a float is exact.** -/
theorem rational?_sub {z : Float} (hx : rational? x = some a) (hy : rational? y = some b)
    (hz : rational? z = some (a - b)) : rational? (x - y) = some (a - b) := by
  have hsub : x - y = .ofModel (.pack (sub Format.binary64 x.toModel.unpack y.toModel.unpack)) :=
    rfl
  rw [hsub]
  cases represents_of_rational? hx with
  | zero sign hparts =>
    cases represents_of_rational? hy with
    | zero sign' hparts' =>
      rw [hparts, hparts', sub, sub_zero]
      split
      · exact rational?_of_unpack_zero (unpack_pack_zero sign)
      · exact rational?_of_unpack_zero (unpack_pack_zero .positive)
    | @finite sign' m' e' hpos' hfits' hexponent' hparts' =>
      rw [hparts, hparts', zero_sub, ← neg_mul, ← Int.cast_neg, ← apply_neg]
      exact rational?_of_unpack_finite (unpack_pack_of_fits (-sign') hpos' hfits' hexponent')
  | @finite sign m e hpos hfits hexponent hparts =>
    cases represents_of_rational? hy with
    | zero sign' hparts' =>
      rw [hparts, hparts', sub_zero]
      exact rational?_of_unpack_finite (unpack_pack_of_fits sign hpos hfits hexponent)
    | @finite sign' m' e' hpos' hfits' hexponent' hparts' =>
      rw [hparts, hparts', sub_finite_finite]
      rw [sub_size] at hz ⊢
      exact rational?_normalize hz .positive

/-! ## Order -/

theorem compare_neg_neg (a b : ℚ) : compare (-a) (-b) = (compare a b).swap := by
  have hanti : StrictAnti fun q : ℚ => -q := fun _ _ => neg_lt_neg
  rw [← cmp_eq_compare, ← cmp_eq_compare, cmp_swap]
  exact hanti.cmp_map_eq a b

/-- **Comparing floats is comparing their numbers.** -/
theorem compare_eq (hx : rational? x = some a) (hy : rational? y = some b) :
    x.toModel.unpack.compare y.toModel.unpack = some (compare a b) := by
  cases represents_of_rational? hx with
  | zero sign hparts =>
    cases represents_of_rational? hy with
    | zero sign' hparts' =>
      rw [hparts, hparts', compare_eq_iff_eq.2 rfl]
      rfl
    | finite sign' hpos' hfits' hexponent' hparts' =>
      rw [hparts, hparts']
      cases sign' with
      | positive =>
        rw [apply_positive_size, compare_lt_iff_lt.2 (size_pos hpos' _)]
        rfl
      | negative =>
        rw [apply_negative_size, compare_gt_iff_gt.2 (neg_neg_of_pos (size_pos hpos' _))]
        rfl
  | @finite sign m e hpos hfits hexponent hparts =>
    cases represents_of_rational? hy with
    | zero sign' hparts' =>
      rw [hparts, hparts']
      cases sign with
      | positive =>
        rw [apply_positive_size, compare_gt_iff_gt.2 (size_pos hpos _)]
        rfl
      | negative =>
        rw [apply_negative_size, compare_lt_iff_lt.2 (neg_neg_of_pos (size_pos hpos _))]
        rfl
    | @finite sign' m' e' hpos' hfits' hexponent' hparts' =>
      have hsizes := compare_size hpos hpos' hfits hfits'
      have hsize := size_pos hpos e
      have hsize' := size_pos hpos' e'
      rw [hparts, hparts']
      cases sign with
      | positive =>
        cases sign' with
        | positive =>
          rw [apply_positive_size, apply_positive_size, ← hsizes]
          rfl
        | negative =>
          rw [apply_positive_size, apply_negative_size,
            compare_gt_iff_gt.2 ((neg_neg_of_pos hsize').trans hsize)]
          rfl
      | negative =>
        cases sign' with
        | positive =>
          rw [apply_negative_size, apply_positive_size,
            compare_lt_iff_lt.2 ((neg_neg_of_pos hsize).trans hsize')]
          rfl
        | negative =>
          rw [apply_negative_size, apply_negative_size, compare_neg_neg, ← hsizes]
          rfl

theorem lt_iff_compare : x < y ↔ x.toModel.unpack.compare y.toModel.unpack = some .lt := by
  show decide ((x.toModel.unpack.compare y.toModel.unpack == some .lt) = true) = true ↔ _
  rw [decide_eq_true_iff, beq_iff_eq]

theorem lt_iff (hx : rational? x = some a) (hy : rational? y = some b) : x < y ↔ a < b := by
  rw [lt_iff_compare, compare_eq hx hy, ← compare_lt_iff_lt, Option.some.injEq]

theorem le_iff (hx : rational? x = some a) (hy : rational? y = some b) : x ≤ y ↔ a ≤ b := by
  have hle : x ≤ y ↔ (x.toModel.unpack.compare y.toModel.unpack).any (·.isLE) = true := by
    show decide ((x.toModel.unpack.compare y.toModel.unpack).any (·.isLE) = true) = true ↔ _
    rw [decide_eq_true_iff]
  rw [hle, compare_eq hx hy, Option.any_some, Std.LawfulBCmp.isLE_iff_le]

/-- A float is equal to a number if it is this number. -/
theorem beq_iff_rational? (hy : rational? y = some b) : (x == y) = true ↔ rational? x = some b := by
  show (x.toModel.unpack.compare y.toModel.unpack == some .eq) = true ↔ _
  rw [beq_iff_eq]
  cases hx : rational? x with
  | some a => rw [compare_eq hx hy, Option.some.injEq, Option.some.injEq, compare_eq_iff_eq]
  | none =>
    refine iff_of_false (fun h => ?_) (nomatch ·)
    rcases exists_infinity_or_notANumber hx with ⟨sign, hinfinity⟩ | hnone
    · rw [hinfinity] at h
      cases represents_of_rational? hy with
      | zero sign' hparts => rw [hparts] at h; cases sign <;> cases h
      | finite sign' hpos hfits hexponent hparts => rw [hparts] at h; cases sign <;> cases h
    · rw [hnone] at h
      cases h

/-! ## Integers -/

/-- The integer part of a number, toward zero. -/
def truncated (q : ℚ) : Int := if 0 ≤ q then ⌊q⌋ else ⌈q⌉

section
variable (mantissa : Nat) (exponent : Int)

/-- A size as the quotient that its integer part is taken of. -/
theorem size_eq_div :
    (mantissa : ℚ) * 2 ^ exponent =
      (mantissa * Nat.pow 2 exponent.toNat : Nat) / (Nat.pow 2 (-exponent).toNat : Nat) := by
  have hexponent : exponent = exponent.toNat - (-exponent).toNat := by omega
  have hpow : (2 : ℚ) ^ exponent = 2 ^ exponent.toNat / 2 ^ (-exponent).toNat := by
    conv_lhs => rw [hexponent]
    rw [zpow_sub₀ two_ne_zero, zpow_natCast, zpow_natCast]
  show _ = ((mantissa * 2 ^ exponent.toNat : Nat) : ℚ) / ((2 ^ (-exponent).toNat : Nat) : ℚ)
  rw [hpow, ← mul_div_assoc]
  push_cast
  rfl

theorem wholePart_eq_floor :
    (wholePart mantissa exponent : Int) = ⌊(mantissa : ℚ) * 2 ^ exponent⌋ := by
  rw [size_eq_div, Rat.floor_natCast_div_natCast, wholePart, Int.natCast_ediv]

theorem hasNoFraction_iff :
    hasNoFraction mantissa exponent = true ↔
      (wholePart mantissa exponent : ℚ) = mantissa * 2 ^ exponent := by
  have hpow : Nat.pow 2 (-exponent).toNat ≠ 0 := (Nat.two_pow_pos _).ne'
  have hpow' : ((Nat.pow 2 (-exponent).toNat : Nat) : ℚ) ≠ 0 := Nat.cast_ne_zero.2 hpow
  rw [hasNoFraction, beq_iff_eq, ← Nat.dvd_iff_mod_eq_zero, size_eq_div, wholePart,
    eq_div_iff hpow', ← Nat.cast_mul, Nat.cast_inj]
  exact ⟨Nat.div_mul_cancel, fun h => ⟨_, (h.symm.trans (Nat.mul_comm _ _))⟩⟩

theorem truncated_size (sign : Sign) :
    truncated (sign.apply mantissa * 2 ^ exponent) = sign.apply (wholePart mantissa exponent) := by
  have hsize : (0 : ℚ) ≤ mantissa * 2 ^ exponent := by positivity
  rw [truncated, wholePart_eq_floor]
  cases sign with
  | positive => exact if_pos hsize
  | negative =>
    rw [apply_negative_size, Int.ceil_neg]
    split
    · next h =>
      have hzero : (mantissa : ℚ) * 2 ^ exponent = 0 := le_antisymm (neg_nonneg.1 h) hsize
      rw [hzero, neg_zero, Int.floor_zero]
      rfl
    · rfl

theorem hasNoFraction_iff_apply (sign : Sign) :
    hasNoFraction mantissa exponent = true ↔
      (sign.apply mantissa : ℚ) * 2 ^ exponent =
        (sign.apply (wholePart mantissa exponent) : Int) := by
  rw [hasNoFraction_iff]
  cases sign with
  | positive => exact eq_comm
  | negative =>
    rw [apply_negative_size, Sign.apply, Int.cast_neg, Int.cast_natCast, neg_inj, eq_comm]

end

theorem truncated_intCast (n : Int) : truncated n = n := by
  rw [truncated, Int.floor_intCast, Int.ceil_intCast, ite_self]

/-- The integer part of a float is that of its number. -/
theorem truncate?_eq (h : rational? x = some q) : truncate? x = some (truncated q) := by
  cases represents_of_rational? h with
  | zero sign hparts =>
    rw [truncate?, hparts, truncated, if_pos le_rfl, Int.floor_zero]
  | @finite sign m e hpos hfits hexponent hparts => rw [truncate?, hparts, truncated_size]

theorem truncate?_of_none (h : rational? x = none) : truncate? x = none := by
  rcases exists_infinity_or_notANumber h with ⟨sign, hparts⟩ | hparts
  · rw [truncate?, hparts]
  · rw [truncate?, hparts]

/-- A float is an integer if its number is. -/
theorem whole?_eq_some_iff {n : Int} : whole? x = some n ↔ rational? x = some (n : ℚ) := by
  rw [whole?, rational?]
  cases x.toModel.unpack with
  | infinity sign => exact ⟨(nomatch ·), (nomatch ·)⟩
  | notANumber => exact ⟨(nomatch ·), (nomatch ·)⟩
  | zero sign =>
    show some 0 = some n ↔ some (0 : ℚ) = some (n : ℚ)
    rw [Option.some.injEq, Option.some.injEq, eq_comm, eq_comm (b := (n : ℚ)), Int.cast_eq_zero]
  | finite sign m e hpos =>
    show (if hasNoFraction m e = true then some (sign.apply (wholePart m e)) else none) = some n ↔
      some ((sign.apply m : ℚ) * 2 ^ e) = some (n : ℚ)
    rw [Option.ite_none_right_eq_some, Option.some.injEq, Option.some.injEq,
      hasNoFraction_iff_apply m e sign]
    constructor
    · rintro ⟨hnumber, rfl⟩
      exact hnumber
    · intro hnumber
      have hpart : sign.apply (wholePart m e) = n := by
        rw [← truncated_size, hnumber, truncated_intCast]
      exact ⟨by rw [hpart, hnumber], hpart⟩

end Reckoner.Number
