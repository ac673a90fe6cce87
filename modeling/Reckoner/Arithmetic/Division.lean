/-
  Division, roots and logarithms.

  These operations compute with the float operations of the machine wherever they have a value,
  and say in front where they have none.  A zero is a zero of either sign throughout.
-/
import Reckoner.Arithmetic.DomainError
import Reckoner.Number.Exact

namespace Reckoner.Arithmetic

open Number (infinity isEvenInteger notANumber ofInteger truncate?)

/-- The quotient of two numbers.  Zero over zero is an outcome of its own. -/
def divide (dividend divisor : Float) : Except DomainError Float :=
  if divisor == 0 then
    if dividend == 0 then .error .zeroOverZero else .error (.divisionByZero dividend)
  else .ok (dividend / divisor)

/-- The remainder of the integer parts, with the sign of the dividend and never a negative
    zero.  It is taken in exact integer arithmetic.  An infinite dividend leaves no remainder that
    is a number; an infinite divisor leaves the dividend. -/
def remainder (dividend divisor : Float) : Except DomainError Float :=
  match truncate? divisor, truncate? dividend with
  | some 0, _ => .error (.remainderByZero dividend)
  | some d, some n => .ok (ofInteger (n.tmod d))
  | none, some n => .ok (if divisor.isInf then ofInteger n else notANumber)
  | _, none => .ok notANumber

/-- The size of the root of a number's absolute value. -/
def rootMagnitude (index radicand : Float) : Float :=
  if index == 2 then radicand.abs.sqrt else radicand.abs.pow (1 / index)

/-- The root of degree `index`, which has the sign of the radicand. -/
def root (index radicand : Float) : Except DomainError Float :=
  if index == 0 then .error (.zeroRoot radicand)
  else if radicand < 0 then
    if isEvenInteger index then .error (.negativeEvenRoot index radicand)
    else .ok (-rootMagnitude index radicand)
  else .ok (rootMagnitude index radicand)

/-- The logarithm of `value` to `base`. -/
def logarithm (value base : Float) : Except DomainError Float :=
  if value == 0 || base == 0 then .error (.logarithm value base)
  else .ok (value.log / base.log)

end Reckoner.Arithmetic
