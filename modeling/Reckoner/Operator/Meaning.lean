/-
  What the operators compute.

  A `Value` is a number, and the text it was written as if it was written.  The text matters to
  the remainder alone: it refuses operands written with a decimal point, and accepts every
  computed number whatever its fraction.

  Only the operators between operands and the factorial can refuse; a function has a value
  everywhere, so its result is no `Except`.
-/
import Reckoner.Arithmetic.Angle
import Reckoner.Arithmetic.Counting
import Reckoner.Arithmetic.Division
import Reckoner.Operator

namespace Reckoner

/-- A number on its way through a calculation. -/
structure Value where
  /-- The number. -/
  number : Float
  /-- The text it was written as; none for a computed number. -/
  literal : Option String
deriving DecidableEq

/-- A number that was computed. -/
def Value.computed (number : Float) : Value := ⟨number, none⟩

/-- Whether the number may take part in a remainder: it is not written with a point. -/
def Value.hasNoPoint (v : Value) : Bool :=
  v.literal.all fun text => !text.toList.contains '.'

/-- The remainder of two values: of the numbers, if neither is written with a point. -/
def Value.remainder (a b : Value) : Except DomainError Float :=
  if a.hasNoPoint && b.hasNoPoint then Arithmetic.remainder a.number b.number
  else .error (.fractionalRemainder a.number b.number)

/-- The value of an operator between two operands. -/
def BinaryOperator.apply (op : BinaryOperator) (a b : Value) : Except DomainError Float :=
  match op with
  | .add => .ok (a.number + b.number)
  | .subtract => .ok (a.number - b.number)
  | .logarithm => Arithmetic.logarithm a.number b.number
  | .multiply => .ok (a.number * b.number)
  | .divide => Arithmetic.divide a.number b.number
  | .remainder => a.remainder b
  | .combinations => Arithmetic.combinations a.number b.number
  | .permutations => Arithmetic.permutations a.number b.number
  | .power => .ok (a.number.pow b.number)
  | .root => Arithmetic.root a.number b.number

/-- The value of a function. -/
def UnaryFunction.apply (f : UnaryFunction) (x : Float) : Float :=
  match f with
  | .sine => x.sin
  | .cosine => x.cos
  | .tangent => x.tan
  | .sineOfDegrees => (Arithmetic.radians x).sin
  | .cosineOfDegrees => (Arithmetic.radians x).cos
  | .tangentOfDegrees => (Arithmetic.radians x).tan
  | .absolute => x.abs

end Reckoner
