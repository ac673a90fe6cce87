/-
  What arithmetic refuses.

  Each constructor of `DomainError` is one cause for which an operation has no value, with the
  numbers that the message shows.  `message` holds all of the wording; the other modules only
  say *which* cause applies.
-/
import Reckoner.Number.Text

namespace Reckoner

/-- A reason why an operation has no value at its operands. -/
inductive DomainError where
  /-- Factorial of something that is not a non-negative integer. -/
  | factorial (value : Float)
  /-- Root of degree zero. -/
  | zeroRoot (radicand : Float)
  /-- Root of an even degree of a negative number. -/
  | negativeEvenRoot (index radicand : Float)
  /-- Division of a number other than zero by zero. -/
  | divisionByZero (dividend : Float)
  /-- Division of zero by zero. -/
  | zeroOverZero
  /-- Remainder of a division by zero. -/
  | remainderByZero (dividend : Float)
  /-- Remainder of numbers of which one is written with a decimal point. -/
  | fractionalRemainder (dividend divisor : Float)
  /-- Logarithm of zero, or to the base zero. -/
  | logarithm (value base : Float)
deriving DecidableEq

namespace DomainError

open Number (text)

/-- The wording of a refusal. -/
def message : DomainError → String
  | .factorial value =>
    "Factorial is only defined for non-negative integers, but found " ++ text value ++ " !"
  | .zeroRoot radicand => "Can't get the 0th root: 0 // " ++ text radicand
  | .negativeEvenRoot index radicand =>
    "Negative numbers do not have roots of even numbers: " ++ text index ++ " // " ++
      text radicand
  | .divisionByZero dividend => "You can't divide by 0: " ++ text dividend ++ " / 0"
  | .zeroOverZero => "You can't divide by 0: 0 / 0"
  | .remainderByZero dividend => "You can't take the modulo of 0: " ++ text dividend ++ " % 0"
  | .fractionalRemainder dividend divisor =>
    "Cannot perform modulo on float values: " ++ text dividend ++ " % " ++ text divisor
  | .logarithm value base =>
    "Logarithm with zero as base or x: " ++ text value ++ " log " ++ text base

end DomainError

end Reckoner
