/-
  Why a row of terms has no value.

  Besides the refusals of arithmetic there are four causes: a text that is no number, an
  operator without an operand it needs, two or more numbers left over, and no number at all.
-/
import Reckoner.Arithmetic.DomainError
import Reckoner.Operator

namespace Reckoner

/-- A reason why a row has no value. -/
inductive ReductionError where
  /-- The text of a number token writes no number. -/
  | unreadable (text : String)
  /-- An operator lacks an operand; the index is its position in the row at that moment. -/
  | missingOperand (index : Nat) (operator : Operator)
  /-- An operation has no value at its operands. -/
  | domain (cause : DomainError)
  /-- More than one number is left; these are the first two. -/
  | tooManyResults (first second : Float)
  /-- No number is left. -/
  | nothing
deriving DecidableEq

/-- The wording of a failed evaluation. -/
def ReductionError.message : ReductionError → String
  | .unreadable text => "Cannot convert to number: " ++ text
  | .missingOperand index operator =>
    "Operator at index " ++ index.repr ++ " missing argument(s): " ++ operator.symbol ++
      "\nNote: The first index is 0"
  | .domain cause => cause.message
  | .tooManyResults first second =>
    "Too many calculation results: " ++ Number.text first ++ " " ++ Number.text second ++
      "\nMaybe you forgot an operator?"
  | .nothing => "Nothing to calculate"

end Reckoner
