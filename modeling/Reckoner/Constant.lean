/-
  Named constants.

  Six names stand for fixed numbers; `ans` stands for the last answer, which depends on what was
  calculated before.  A minus sign touching the name negates the number.

  `ofName?_name` is the main statement: the name of a constant finds it again.
-/
import Reckoner.Arithmetic.Angle

namespace Reckoner

/-- A number with a name. -/
inductive Constant where
  | pi
  /-- Two `π`. -/
  | tau
  /-- Euler's number. -/
  | e
  /-- Standard gravity, in metres per square second. -/
  | g
  /-- The golden ratio. -/
  | phi
  /-- The speed of light, in metres per second. -/
  | c
  /-- The last answer. -/
  | ans
deriving DecidableEq, Repr

namespace Constant

/-- How a constant is written. -/
def name : Constant → String
  | .pi => "pi"
  | .tau => "tau"
  | .e => "e"
  | .g => "g"
  | .phi => "phi"
  | .c => "c"
  | .ans => "ans"

/-- Every constant, once. -/
def all : List Constant := [.pi, .tau, .e, .g, .phi, .c, .ans]

/-- The constant with a given name. -/
def ofName? (name : String) : Option Constant :=
  all.find? (·.name = name)

/-- The number of a constant, given the last answer; only `ans` without one has none. -/
def value? (lastAnswer : Option Float) : Constant → Option Float
  | .pi => some Arithmetic.pi
  | .tau => some 6.283185307179586
  | .e => some 2.718281828459045
  | .g => some 9.80665
  | .phi => some 1.618033988749895
  | .c => some 299792458
  | .ans => lastAnswer

/-- The name of a constant finds it again. -/
theorem ofName?_name (constant : Constant) : ofName? constant.name = some constant := by
  cases constant <;> decide

/-- A text names a constant exactly when it is that constant's name. -/
theorem ofName?_eq_some_iff {name : String} {constant : Constant} :
    ofName? name = some constant ↔ name = constant.name := by
  constructor
  · intro h
    have hname := List.find?_some h
    exact (of_decide_eq_true hname).symm
  · intro h
    rw [h, ofName?_name]

end Constant

/-- A constant as it is written, with a minus sign or without. -/
structure SignedConstant where
  /-- The constant. -/
  constant : Constant
  /-- Whether a minus sign touches the name. -/
  negated : Bool
deriving DecidableEq, Repr

/-- The number of a signed constant, given the last answer. -/
def SignedConstant.value? (lastAnswer : Option Float) (s : SignedConstant) : Option Float :=
  (s.constant.value? lastAnswer).map fun x => if s.negated then -x else x

end Reckoner
