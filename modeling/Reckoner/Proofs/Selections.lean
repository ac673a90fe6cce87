/-
  Where selections are defined.

  Factorials are taken of the two numbers as they stand, and of their difference as it is rounded.

  1. **Differences of natural numbers (`exists_sub_natCast`)** — they are rounded to natural numbers,
     and no farther than to the next float.  So unordered selections are refused for exactly those
     numbers that are no natural numbers or have a negative difference.

  2. **Symmetry (`combinations_sub`)** — below `2^53` the difference is exact, and the two
     factorials under the fraction bar change places.  From `2^53` on it need not be, but then one of
     the two is above the cut-off, and dividend and divisor are infinite on both sides.

  3. **All differences (`exists_natCast_sub_iff`)** — ordered selections do not ask whether the
     second number is an integer.  They are defined where a natural number is nearest to the exact
     difference among the floats, so a fraction may be rounded away.
-/
import Mathlib
import Reckoner.Proofs.Accuracy

namespace Reckoner.Arithmetic

open Number

variable {x y : Float}

/-! ## Differences -/

variable {a b : ℚ}

/-- A difference that is a natural number is rounded to one, in order. -/
theorem exists_natCast_of_sub_eq {c : Nat} (hx : rational? x = some a) (hy : rational? y = some b)
    (hc : a - b = c) (hlt : a - b < overflow) :
    ∃ k : Nat, rational? (x - y) = some (k : ℚ) ∧
      ∀ m : Nat, IsFloat m → (c ≤ m → k ≤ m) ∧ (m ≤ c → m ≤ k) := by
  rcases Nat.eq_zero_or_pos c with rfl | hpos
  · rw [Nat.cast_zero] at hc
    refine ⟨0, ?_, fun m _ => ⟨id, id⟩⟩
    rw [rational?_sub hx hy (rational?_zero.trans (congrArg some hc.symm)), hc, Nat.cast_zero]
  · have hround : Rounding .positive (a - b) (x - y) :=
      rounding_sub hx hy (hc ▸ Nat.cast_pos.2 hpos)
    rw [hc] at hround hlt
    cases hround with
    | number hv _ hz =>
      obtain ⟨k, rfl⟩ := hv.exists_natCast
      refine ⟨k, hz, fun m hm => ⟨fun h => ?_, fun h => ?_⟩⟩
      · exact_mod_cast hv.le_of_le hm (Nat.cast_le.2 h)
      · exact_mod_cast hv.le_of_ge hm (Nat.cast_le.2 h)
    | overflow hv hlimit _ => exact (hlimit.not_gt (hv.lt_limit_iff.2 hlt)).elim

/-- The difference of natural numbers does not overflow. -/
theorem exists_sub_natCast {i j : Nat} (hx : rational? x = some (i : ℚ))
    (hy : rational? y = some (j : ℚ)) (hle : j ≤ i) :
    ∃ k : Nat, rational? (x - y) = some (k : ℚ) ∧
      ∀ m : Nat, IsFloat m → (i - j ≤ m → k ≤ m) ∧ (m ≤ i - j → m ≤ k) := by
  have hlt : (i : ℚ) - j < overflow :=
    (sub_le_self _ j.cast_nonneg).trans_lt (IsFloat.lt_overflow ⟨x, hx⟩)
  exact exists_natCast_of_sub_eq hx hy (Nat.cast_sub hle).symm hlt

/-- Below `2^53` it is exact. -/
theorem rational?_sub_natCast {i j : Nat} (hx : rational? x = some (i : ℚ))
    (hy : rational? y = some (j : ℚ)) (hle : j ≤ i) (hi : i < 2 ^ 53) :
    rational? (x - y) = some ((i - j : Nat) : ℚ) := by
  obtain ⟨z, hz⟩ := isFloat_natCast ((Nat.sub_le i j).trans_lt hi)
  rw [Nat.cast_sub hle] at hz ⊢
  exact rational?_sub hx hy hz

/-- Different floats differ by the least positive float at least. -/
theorem least_le_sub (ha : IsFloat a) (hb : IsFloat b) (h : a < b) :
    2 ^ (-1074 : Int) ≤ b - a := by
  obtain ⟨k, rfl⟩ := ha.exists_mul
  obtain ⟨l, rfl⟩ := hb.exists_mul
  have hlt : k < l := by exact_mod_cast (mul_lt_mul_iff_left₀ (two_zpow_pos (-1074))).1 h
  have hone : (1 : ℚ) ≤ l - k := by exact_mod_cast Int.sub_pos_of_lt hlt
  rw [← sub_mul]
  exact le_mul_of_one_le_left (two_zpow_pos _).le hone

theorem isFloat_least : IsFloat (2 ^ (-1074 : Int)) := by
  have hsize := isFloat_size (k := 1) (j := -1074) (by decide) (by decide) (by decide)
  rwa [Int.cast_one, one_mul] at hsize

/-- A negative difference stays negative. -/
theorem not_natCast_sub_of_lt (hx : rational? x = some a) (hy : rational? y = some b) (h : a < b) :
    ¬ ∃ c : Nat, rational? (x - y) = some (c : ℚ) := by
  have hpos : 0 < signed .negative (a - b) := neg_pos.2 (sub_neg.2 h)
  have hleast : 2 ^ (-1074 : Int) ≤ signed .negative (a - b) :=
    (least_le_sub ⟨x, hx⟩ ⟨y, hy⟩ h).trans_eq (neg_sub a b).symm
  rintro ⟨c, hc⟩
  cases rounding_sub hx hy hpos with
  | @number v hv _ hz =>
    have hvpos : 0 < v := (two_zpow_pos _).trans_le (hv.le_of_ge isFloat_least hleast)
    have hvc : -v = c := Option.some.inj (hz.symm.trans hc)
    exact (neg_neg_of_pos hvpos).not_ge (hvc ▸ c.cast_nonneg)
  | overflow _ _ hz =>
    rw [hz, rational?_infinity] at hc
    cases hc

/-- **A difference is rounded to a natural number if one is nearest to it.** -/
theorem exists_natCast_sub_iff (hx : rational? x = some a) (hy : rational? y = some b) :
    (∃ c : Nat, rational? (x - y) = some (c : ℚ)) ↔
      a - b < overflow ∧ ∃ c : Nat, IsNearest c (a - b) := by
  rcases lt_trichotomy a b with hlt | rfl | hlt
  · refine iff_of_false (not_natCast_sub_of_lt hx hy hlt) ?_
    rintro ⟨-, c, -, hnearest⟩
    -- the negative of the least positive float is nearer
    have hleast := least_le_sub ⟨x, hx⟩ ⟨y, hy⟩ hlt
    have hnear := hnearest _ isFloat_least.neg
    have hpos := two_zpow_pos (-1074)
    have hc : (0 : ℚ) ≤ c := c.cast_nonneg
    rw [abs_of_nonneg (by linarith), abs_of_nonneg (by linarith)] at hnear
    linarith
  · have hzero : a - a = 0 := sub_self a
    have hfloat : IsFloat ((0 : Nat) : ℚ) := isFloat_natCast (by decide)
    rw [rational?_sub hx hy (rational?_zero.trans (congrArg some hzero.symm)), hzero]
    refine iff_of_true ⟨0, by rw [Nat.cast_zero]⟩ ⟨?_, 0, hfloat, fun w _ => ?_⟩
    · exact overflow_pos
    · rw [Nat.cast_zero, sub_self, abs_zero]
      exact abs_nonneg _
  · have hround : Rounding .positive (a - b) (x - y) := rounding_sub hx hy (sub_pos.2 hlt)
    cases hround with
    | @number v hv hlimit hz =>
      rw [hz, and_iff_right (hv.lt_limit_iff.1 hlimit)]
      constructor
      · rintro ⟨c, hc⟩
        obtain rfl : v = c := Option.some.inj hc
        exact ⟨c, ⟨x - y, hz⟩, fun w hw => hv.nearest hw⟩
      · rintro ⟨c, -, hnearest⟩
        obtain ⟨m, rfl⟩ := hv.exists_natCast_of_near (hnearest v ⟨x - y, hz⟩)
        exact ⟨m, rfl⟩
    | overflow hv hlimit hz =>
      refine iff_of_false ?_ fun h => hlimit.not_gt (hv.lt_limit_iff.2 h.1)
      rintro ⟨c, hc⟩
      rw [hz, rational?_infinity] at hc
      cases hc

/-! ## Factorials above the cut-off -/

theorem factorialOfNat_of_le {k : Nat} (hk : k ≤ largestFactorial) : factorialOfNat k = product k :=
  if_pos hk

theorem factorialOfNat_of_lt {k : Nat} (hk : largestFactorial < k) : factorialOfNat k = infinity :=
  if_neg hk.not_ge

/-- The product of an infinite factorial with another is infinite. -/
theorem factorialOfNat_mul_of_lt {i : Nat} (hi : largestFactorial < i) (j : Nat) :
    factorialOfNat i * factorialOfNat j = infinity := by
  rw [factorialOfNat_of_lt hi]
  rcases le_or_gt j largestFactorial with hj | hj
  · obtain ⟨v, hv, hwithin⟩ := product_within hj
    rw [factorialOfNat_of_le hj, product_comm, mul_infinity hv hwithin.pos_left]
  · rw [factorialOfNat_of_lt hj, infinity_mul_infinity]

/-- Out of `2^53` or more, what is chosen or what is left is above the cut-off. -/
theorem factorialOfNat_mul_of_le {a b c : Nat} (ha : 2 ^ 53 ≤ a)
    (hc : ∀ m : Nat, IsFloat m → m ≤ a - b → m ≤ c) :
    factorialOfNat b * factorialOfNat c = infinity := by
  rcases le_or_gt b largestFactorial with hb | hb
  · have hfar : 2 ^ 52 ≤ a - b := by
      rw [largestFactorial] at hb
      omega
    have hlarge : 2 ^ 52 ≤ c := hc _ (isFloat_natCast (by decide)) hfar
    have hc' : largestFactorial < c := by
      rw [largestFactorial]
      omega
    rw [product_comm, factorialOfNat_mul_of_lt hc']
  · exact factorialOfNat_mul_of_lt hb c

/-! ## Unordered selections -/

/-- Both numbers and their exact difference are natural numbers. -/
def Selectable (n r : Float) : Prop :=
  ∃ a b c : Nat, rational? n = some (a : ℚ) ∧ rational? r = some (b : ℚ) ∧ (a : ℚ) - b = c

section
variable {n r : Float} {i j k : Nat}

theorem combinations_eq (hn : rational? n = some (i : ℚ)) (hr : rational? r = some (j : ℚ))
    (hd : rational? (n - r) = some (k : ℚ)) :
    combinations n r = .ok (factorialOfNat i / (factorialOfNat j * factorialOfNat k)) := by
  rw [combinations, factorial_of_isNatural hn, factorial_of_isNatural hr, factorial_of_isNatural hd]
  rfl

theorem combinations_of_not_selectable (h : ¬ Selectable n r) :
    ∃ v, combinations n r = .error (.factorial v) := by
  by_cases hn : ∃ i : Nat, rational? n = some (i : ℚ)
  · obtain ⟨i, hi⟩ := hn
    by_cases hr : ∃ j : Nat, rational? r = some (j : ℚ)
    · obtain ⟨j, hj⟩ := hr
      have hlt : i < j := by
        by_contra hle
        exact h ⟨i, j, i - j, hi, hj, (Nat.cast_sub (not_lt.1 hle)).symm⟩
      have hd := not_natCast_sub_of_lt hi hj (Nat.cast_lt.2 hlt)
      refine ⟨n - r, ?_⟩
      rw [combinations, factorial_of_isNatural hi, factorial_of_isNatural hj,
        factorial_of_not_isNatural hd]
      rfl
    · refine ⟨r, ?_⟩
      rw [combinations, factorial_of_isNatural hi, factorial_of_not_isNatural hr]
      rfl
  · refine ⟨n, ?_⟩
    rw [combinations, factorial_of_not_isNatural hn]
    rfl

/-- Natural numbers that are selected from. -/
theorem Selectable.exists_le (h : Selectable n r) :
    ∃ i j : Nat, rational? n = some (i : ℚ) ∧ rational? r = some (j : ℚ) ∧ j ≤ i := by
  obtain ⟨i, j, k, hn, hr, hk⟩ := h
  have hle : (j : ℚ) ≤ i := sub_nonneg.1 (hk ▸ k.cast_nonneg)
  exact ⟨i, j, hn, hr, Nat.cast_le.1 hle⟩

/-- **Choosing is leaving the rest.** -/
theorem combinations_sub (hn : rational? n = some (i : ℚ)) (hr : rational? r = some (j : ℚ))
    (hle : j ≤ i) : combinations n (n - r) = combinations n r := by
  rcases lt_or_ge i (2 ^ 53) with hlt | hge
  · have hk := rational?_sub_natCast hn hr hle hlt
    have hl := rational?_sub_natCast hn hk (Nat.sub_le i j) hlt
    rw [Nat.sub_sub_self hle] at hl
    rw [combinations_eq hn hr hk, combinations_eq hn hk hl, product_comm]
  · obtain ⟨k, hk, horder⟩ := exists_sub_natCast hn hr hle
    have hki : k ≤ i := (horder i ⟨n, hn⟩).1 (Nat.sub_le i j)
    obtain ⟨l, hl, horder'⟩ := exists_sub_natCast hn hk hki
    rw [combinations_eq hn hr hk, combinations_eq hn hk hl,
      factorialOfNat_mul_of_le hge fun m hm => (horder m hm).2,
      factorialOfNat_mul_of_le hge fun m hm => (horder' m hm).2]

end

/-- **Where unordered selections are defined.**  They are refused unless both numbers and their
    exact difference are natural numbers, and what is left can be chosen instead. -/
theorem combinations_domain (n r : Float) :
    ((∃ v, combinations n r = .error (.factorial v)) ↔ ¬ Selectable n r) ∧
    ((∃ z, combinations n r = .ok z) ↔ Selectable n r) ∧
    ∀ z, combinations n r = .ok z → combinations n (n - r) = .ok z := by
  by_cases h : Selectable n r
  · obtain ⟨i, j, hn, hr, hle⟩ := h.exists_le
    obtain ⟨k, hk, -⟩ := exists_sub_natCast hn hr hle
    rw [combinations_sub hn hr hle, combinations_eq hn hr hk]
    exact ⟨iff_of_false (fun ⟨_, he⟩ => nomatch he) (not_not.2 h), iff_of_true ⟨_, rfl⟩ h,
      fun _ => id⟩
  · obtain ⟨v, hv⟩ := combinations_of_not_selectable h
    rw [hv]
    exact ⟨iff_of_true ⟨v, rfl⟩ h, iff_of_false (fun ⟨_, he⟩ => nomatch he) h,
      fun _ he => nomatch he⟩

/-- One out of `2^54`, which is the same float as one less. -/
theorem combinations_domain_large :
    combinations 18014398509481984 1 = .ok notANumber ∧
      combinations 18014398509481984 (18014398509481984 - 1) = .ok notANumber := by
  have hvalue : combinations 18014398509481984 1 = .ok notANumber := by decide +kernel
  exact ⟨hvalue, (combinations_domain 18014398509481984 1).2.2 notANumber hvalue⟩

/-! ## Ordered selections -/

/-- The first number and the exact difference are natural numbers. -/
def Arrangeable (n r : Float) : Prop :=
  ∃ (a c : Nat) (b : ℚ), rational? n = some (a : ℚ) ∧ rational? r = some b ∧ (a : ℚ) - b = c

/-- A natural number is nearest to the exact difference, which does not overflow. -/
def NearNatural (n r : Float) : Prop :=
  ∃ a b : ℚ, rational? n = some a ∧ rational? r = some b ∧ a - b < overflow ∧
    ∃ c : Nat, IsNearest c (a - b)

section
variable {n r : Float} {i k : Nat}

theorem permutations_eq (hn : rational? n = some (i : ℚ)) (hd : rational? (n - r) = some (k : ℚ)) :
    permutations n r = .ok (factorialOfNat i / factorialOfNat k) := by
  rw [permutations, factorial_of_isNatural hn, factorial_of_isNatural hd]
  rfl

theorem permutations_of_not_isNatural (h : ¬ ∃ i : Nat, rational? n = some (i : ℚ)) :
    permutations n r = .error (.factorial n) := by
  rw [permutations, factorial_of_not_isNatural h]
  rfl

theorem permutations_of_not_isNatural_sub (hn : rational? n = some (i : ℚ))
    (h : ¬ ∃ k : Nat, rational? (n - r) = some (k : ℚ)) :
    permutations n r = .error (.factorial (n - r)) := by
  rw [permutations, factorial_of_isNatural hn, factorial_of_not_isNatural h]
  rfl

/-- The difference as it is rounded, and as it is. -/
theorem exists_natCast_sub_iff_nearNatural (hn : rational? n = some a) :
    (∃ k : Nat, rational? (n - r) = some (k : ℚ)) ↔ NearNatural n r := by
  cases hr : rational? r with
  | none =>
    rw [rational?_sub_of_none hn hr]
    exact iff_of_false (fun ⟨_, hk⟩ => nomatch hk) fun ⟨_, _, _, hb, _⟩ => nomatch hr ▸ hb
  | some b =>
    rw [exists_natCast_sub_iff hn hr]
    refine ⟨fun h => ⟨a, b, hn, hr, h⟩, ?_⟩
    rintro ⟨a', b', ha, hb, h⟩
    obtain rfl := Option.some.inj (hn.symm.trans ha)
    obtain rfl := Option.some.inj (hr.symm.trans hb)
    exact h

/-- **Nothing is rounded to a natural number** if the difference is a float, or both numbers are
    integers. -/
theorem nearNatural_iff_arrangeable (hn : rational? n = some (i : ℚ)) (hr : rational? r = some b)
    (h : IsFloat (i - b) ∨ (∃ k : Int, b = k) ∧ i - b < overflow) :
    NearNatural n r ↔ Arrangeable n r := by
  rw [← exists_natCast_sub_iff_nearNatural hn]
  constructor
  · rintro ⟨c, hc⟩
    rcases h with ⟨z, hz⟩ | ⟨⟨k, rfl⟩, _⟩
    · rw [rational?_sub hn hr hz] at hc
      exact ⟨i, c, b, hn, hr, Option.some.inj hc⟩
    · have hle : (k : ℚ) ≤ i := not_lt.1 fun hlt => not_natCast_sub_of_lt hn hr hlt ⟨c, hc⟩
      have hle' : k ≤ i := by exact_mod_cast hle
      obtain ⟨m, hm⟩ := Int.le.dest hle'
      refine ⟨i, m, k, hn, hr, sub_eq_iff_eq_add'.2 ?_⟩
      exact_mod_cast hm.symm
  · rintro ⟨a, c, b', ha, hb, hc⟩
    obtain rfl := Option.some.inj (hr.symm.trans hb)
    have hsub : (i : ℚ) - b = c := by rw [Option.some.inj (hn.symm.trans ha), hc]
    have hlt : (i : ℚ) - b < overflow := h.elim IsFloat.lt_overflow And.right
    obtain ⟨k, hk, -⟩ := exists_natCast_of_sub_eq hn hr hsub hlt
    exact ⟨k, hk⟩

/-- The factorial that is refused. -/
theorem permutations_error_iff {e : DomainError} :
    permutations n r = .error e ↔
      (¬ (∃ i : Nat, rational? n = some (i : ℚ)) ∧ e = .factorial n) ∨
      ((∃ i : Nat, rational? n = some (i : ℚ)) ∧ ¬ NearNatural n r ∧ e = .factorial (n - r)) := by
  by_cases hn : ∃ i : Nat, rational? n = some (i : ℚ)
  · rw [and_iff_right hn, or_iff_right fun h => h.1 hn]
    obtain ⟨i, hi⟩ := hn
    rw [← exists_natCast_sub_iff_nearNatural hi]
    by_cases hd : ∃ k : Nat, rational? (n - r) = some (k : ℚ)
    · obtain ⟨k, hk⟩ := hd
      rw [permutations_eq hi hk]
      exact iff_of_false (nomatch ·) fun h => h.1 ⟨k, hk⟩
    · rw [permutations_of_not_isNatural_sub hi hd, Except.error.injEq, eq_comm, and_iff_right hd]
  · rw [permutations_of_not_isNatural hn, Except.error.injEq, eq_comm, and_iff_right hn,
      or_iff_left fun h => hn h.1]

theorem permutations_refused_iff :
    (∃ v, permutations n r = .error (.factorial v)) ↔
      ¬ ((∃ i : Nat, rational? n = some (i : ℚ)) ∧ NearNatural n r) := by
  constructor
  · rintro ⟨v, hv⟩ ⟨hn, hnear⟩
    rcases permutations_error_iff.1 hv with ⟨hno, -⟩ | ⟨-, hno, -⟩
    · exact hno hn
    · exact hno hnear
  · intro h
    by_cases hn : ∃ i : Nat, rational? n = some (i : ℚ)
    · exact ⟨n - r, permutations_error_iff.2 (.inr ⟨hn, fun hnear => h ⟨hn, hnear⟩, rfl⟩)⟩
    · exact ⟨n, permutations_error_iff.2 (.inl ⟨hn, rfl⟩)⟩

end

/-- **Where ordered selections are defined.**  The first number is a natural number, and a natural
    number is nearest to the difference.  This is the difference itself, if it is a float or if both
    numbers are integers and it does not overflow. -/
theorem permutations_domain (n r : Float) :
    (∀ e, permutations n r = .error e ↔
      (¬ (∃ i : Nat, rational? n = some (i : ℚ)) ∧ e = .factorial n) ∨
      ((∃ i : Nat, rational? n = some (i : ℚ)) ∧ ¬ NearNatural n r ∧ e = .factorial (n - r))) ∧
    ∀ a b : ℚ, rational? n = some a → rational? r = some b →
      IsFloat (a - b) ∨ (∃ k : Int, b = k) ∧ a - b < overflow →
      ((∃ v, permutations n r = .error (.factorial v)) ↔ ¬ Arrangeable n r) := by
  refine ⟨fun e => permutations_error_iff, fun a b ha hr h => ?_⟩
  rw [permutations_refused_iff, not_iff_not]
  constructor
  · rintro ⟨⟨i, hi⟩, hnear⟩
    obtain rfl := Option.some.inj (hi.symm.trans ha)
    exact (nearNatural_iff_arrangeable hi hr h).1 hnear
  · intro harrangeable
    have ⟨i, _, _, hi, _⟩ := harrangeable
    obtain rfl := Option.some.inj (hi.symm.trans ha)
    exact ⟨⟨i, hi⟩, (nearNatural_iff_arrangeable hi hr h).2 harrangeable⟩

/-- Two integers with a difference that is no float: it is rounded to the first of them. -/
theorem permutations_domain_rounded :
    (rational? 9007199254740992 = some (2 ^ 53) ∧ rational? (-1) = some (-1) ∧
      (∃ k : Int, (-1 : ℚ) = k) ∧ (2 ^ 53 - -1 : ℚ) < overflow ∧
      rational? (9007199254740992 - -1) = some (2 ^ 53)) ∧
      ((∃ v, permutations 9007199254740992 (-1) = .error (.factorial v)) ↔
        ¬ Arrangeable 9007199254740992 (-1)) := by
  have hn : rational? 9007199254740992 = some (2 ^ 53) := by decide +kernel
  have hr : rational? (-1) = some (-1) := by decide +kernel
  have hinteger : ∃ k : Int, (-1 : ℚ) = k := ⟨-1, by norm_num⟩
  have hfloat : IsFloat (2 ^ 53 + 2) := ⟨9007199254740994, by decide +kernel⟩
  have hlt : (2 ^ 53 - -1 : ℚ) < overflow := lt_trans (by norm_num) hfloat.lt_overflow
  have hrounded : rational? (9007199254740992 - -1) = some (2 ^ 53) := by decide +kernel
  exact ⟨⟨hn, hr, hinteger, hlt, hrounded⟩,
    (permutations_domain 9007199254740992 (-1)).2 _ _ hn hr (.inr ⟨hinteger, hlt⟩)⟩

/-- A fraction that is too small to be noticed next to one. -/
theorem permutations_one_tiny :
    permutations 1 1e-20 = .ok 1 ∧
      ¬ ((∃ v, permutations 1 1e-20 = .error (.factorial v)) ↔ ¬ Arrangeable 1 1e-20) := by
  have hvalue : permutations 1 1e-20 = .ok 1 := by decide +kernel
  have htiny : rational? 1e-20 = some (6646139978924579 / 2 ^ 119) := by decide +kernel
  have hfraction : ¬ Arrangeable 1 1e-20 := by
    rintro ⟨a, c, b, ha, hb, hc⟩
    obtain rfl := Option.some.inj (htiny.symm.trans hb)
    rw [← Option.some.inj (rational?_one.symm.trans ha)] at hc
    have hlow : ((0 : Nat) : ℚ) < c := by
      rw [← hc]
      norm_num
    have hhigh : (c : ℚ) < (1 : Nat) := by
      rw [← hc]
      norm_num
    exact (Nat.lt_one_iff.1 (Nat.cast_lt.1 hhigh) ▸ Nat.cast_lt.1 hlow).false
  refine ⟨hvalue, fun h => ?_⟩
  rw [hvalue] at h
  exact h.not.1 (fun ⟨_, he⟩ => nomatch he) hfraction

end Reckoner.Arithmetic
