/-
  Circle numbers and angles.

  The trigonometric functions take radians; an angle in degrees is converted by one
  multiplication with the float nearest to `π / 180`.
-/

namespace Reckoner.Arithmetic

/-- The float nearest to `π`. -/
def pi : Float := 3.141592653589793

/-- An angle in radians, given in degrees. -/
def radians (degrees : Float) : Float :=
  degrees * (pi / 180)

end Reckoner.Arithmetic
