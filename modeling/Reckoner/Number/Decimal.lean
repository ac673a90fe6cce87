/-
  Decimals: numbers with finitely many digits behind the point, kept exactly.

  `⟨units, places⟩` stands for `units / 10^places`.  There is no sign and no exponent, because
  the calculator writes signs in front and never writes an exponent: a decimal *is* what will
  stand on the paper.  `chars` writes it, `toFloat` is the float nearest to it.

  The main statement is `ofDigitChars_digits`: the digits that `chars` writes, read as one
  number without the point, are `units` again.  Together with `length_fractionDigits` (there are
  `places` digits behind the point) this is what a reader of the text needs.
-/

namespace Reckoner

/-- The number `units / 10^places`. -/
structure Decimal where
  /-- How often the last place is counted. -/
  units : Nat
  /-- How many digits stand behind the point. -/
  places : Nat
deriving DecidableEq, Repr

namespace Decimal

/-- The decimal `m · 2^e`, which is exact since `2^(-k) = 5^k / 10^k`. -/
def ofBinary (mantissa : Nat) (exponent : Int) : Decimal where
  units := mantissa * Nat.pow 2 exponent.toNat * Nat.pow 5 (-exponent).toNat
  places := (-exponent).toNat

/-- The float nearest to a decimal, the even mantissa on a tie. -/
def toFloat (d : Decimal) : Float :=
  .ofModel (.ofScientific d.units (-(d.places : Int)))

/-! ## Closing zeros -/

/-- The number `units / 10^places` without zeros at the end of its fraction. -/
def trimFraction (units : Nat) : Nat → Decimal
  | 0 => ⟨units, 0⟩
  | places + 1 =>
    if units % 10 = 0 then trimFraction (units / 10) places else ⟨units, places + 1⟩

/-- The same number without zeros at the end of its fraction. -/
def trim (d : Decimal) : Decimal :=
  trimFraction d.units d.places

/-! ## Writing -/

/-- All digits of a decimal, with zeros in front so that one stands before the point. -/
def digits (d : Decimal) : List Char :=
  let written := Nat.toDigits 10 d.units
  List.replicate (d.places + 1 - written.length) '0' ++ written

/-- The digits before the point. -/
def wholeDigits (d : Decimal) : List Char :=
  d.digits.take (d.digits.length - d.places)

/-- The digits behind the point. -/
def fractionDigits (d : Decimal) : List Char :=
  d.digits.drop (d.digits.length - d.places)

/-- The text of a decimal: its digits, and the point only if a digit follows it. -/
def chars (d : Decimal) : List Char :=
  if d.places = 0 then d.wholeDigits else d.wholeDigits ++ '.' :: d.fractionDigits

theorem wholeDigits_append_fractionDigits (d : Decimal) :
    d.wholeDigits ++ d.fractionDigits = d.digits :=
  List.take_append_drop _ _

theorem places_lt_length_digits (d : Decimal) : d.places < d.digits.length := by
  have h : 0 < (Nat.toDigits 10 d.units).length := Nat.length_toDigits_pos
  simp only [digits, List.length_append, List.length_replicate]
  omega

/-- Exactly `places` digits stand behind the point. -/
theorem length_fractionDigits (d : Decimal) : d.fractionDigits.length = d.places := by
  have h := d.places_lt_length_digits
  simp only [fractionDigits, List.length_drop]
  omega

/-- At least one digit stands before the point. -/
theorem wholeDigits_ne_nil (d : Decimal) : d.wholeDigits ≠ [] := by
  have h := d.places_lt_length_digits
  intro hnil
  have hlen : d.wholeDigits.length = 0 := by rw [hnil]; rfl
  simp only [wholeDigits, List.length_take] at hlen
  omega

/-- The digits, read as one number, are the units again. -/
theorem ofDigitChars_digits (d : Decimal) : Nat.ofDigitChars 10 d.digits 0 = d.units := by
  simp only [digits, Nat.ofDigitChars_append, Nat.ofDigitChars_replicate_zero,
    Nat.mul_zero, Nat.ofDigitChars_ten_toDigits]

/-- Only the ten digits are written. -/
theorem isDigit_of_mem_digits {d : Decimal} {c : Char} (h : c ∈ d.digits) :
    c.isDigit = true := by
  rcases List.mem_append.1 h with hzero | hwritten
  · rw [(List.mem_replicate.1 hzero).2]; rfl
  · exact Nat.isDigit_of_mem_toDigits (by decide) (by decide) hwritten

end Decimal

end Reckoner
