/-
  The exact integers behind floating-point numbers.

  A finite `Float` is a sign, a mantissa `m` and an exponent `e`, and stands for `± m · 2^e`.
  Everything here is computed on these three parts in exact `Nat` and `Int` arithmetic, never
  with floating-point operations: cutting off a fraction, asking whether a number is whole, and
  asking whether it is even then need no argument about rounding, and the answers are right for
  subnormal numbers and for numbers far above `2^53` alike.

  `truncate? x` is the integer part of `x` toward zero, `whole? x` is `x` itself when it is an
  integer; both are `none` for the infinities and for not-a-number.
-/

namespace Reckoner.Number

/-! ## Sizes `m · 2^e`

  One of the two powers below is `1`, so the quotient and the remainder are those of
  `m · 2^e` whichever sign the exponent has. -/

/-- The integer part of `m · 2^e`. -/
def wholePart (mantissa : Nat) (exponent : Int) : Nat :=
  mantissa * Nat.pow 2 exponent.toNat / Nat.pow 2 (-exponent).toNat

/-- Whether `m · 2^e` is an integer. -/
def hasNoFraction (mantissa : Nat) (exponent : Int) : Bool :=
  mantissa * Nat.pow 2 exponent.toNat % Nat.pow 2 (-exponent).toNat == 0

/-! ## Integer views of a float -/

/-- The integer part of a finite number, cut off toward zero. -/
def truncate? (x : Float) : Option Int :=
  match x.toModel.unpack with
  | .zero _ => some 0
  | .finite sign mantissa exponent _ => some (sign.apply (wholePart mantissa exponent))
  | .infinity _ => none
  | .notANumber => none

/-- The integer that a number is, if it is one.  Both zeros are the integer `0`. -/
def whole? (x : Float) : Option Int :=
  match x.toModel.unpack with
  | .zero _ => some 0
  | .finite sign mantissa exponent _ =>
    if hasNoFraction mantissa exponent then some (sign.apply (wholePart mantissa exponent))
    else none
  | .infinity _ => none
  | .notANumber => none

/-- Whether a number is an even integer; zero and negative numbers count. -/
def isEvenInteger (x : Float) : Bool :=
  (whole? x).any (· % 2 == 0)

/-- The float nearest to an integer; zero becomes the positive zero. -/
def ofInteger (n : Int) : Float :=
  .ofModel (.ofInt n)

end Reckoner.Number
