/-
  The fewest digits that read back.

  Of all decimals that read back as a float, the calculator writes one with the fewest
  significant digits, and of those the one nearest to the float; if two are equally near, the
  larger.

  The search starts from the float's *exact* decimal, which always exists (`Decimal.ofBinary`).
  Keeping only its first digits leaves two candidates: the exact decimal cut off there, and the
  next one above.  From one digit upwards the candidates are read back with `Decimal.toFloat`,
  and the first that gives the float again is the answer.  When nothing is left to drop, the
  candidate is the exact decimal itself, so the search needs no limit of its own.
-/
import Reckoner.Number.Decimal

namespace Reckoner.Decimal

/-! ## Candidates -/

/-- The decimal with its last `dropped` digits set to zero. -/
def roundDown (d : Decimal) (dropped : Nat) : Decimal where
  units := d.units / Nat.pow 10 dropped * Nat.pow 10 dropped
  places := d.places

/-- The next decimal above `roundDown` that ends in `dropped` zeros. -/
def roundUp (d : Decimal) (dropped : Nat) : Decimal where
  units := (d.units / Nat.pow 10 dropped + 1) * Nat.pow 10 dropped
  places := d.places

/-- The two neighbours of a decimal that end in `dropped` zeros, the nearer one first and the
    larger one first when both are equally near. -/
def neighbours (d : Decimal) (dropped : Nat) : List Decimal :=
  if 2 * (d.units % Nat.pow 10 dropped) < Nat.pow 10 dropped then
    [(d.roundDown dropped).trim, (d.roundUp dropped).trim]
  else
    [(d.roundUp dropped).trim, (d.roundDown dropped).trim]

/-! ## The search -/

/-- Drops as many of at most `dropped` digits as possible such that a neighbour still passes
    the test; the decimal itself is the last resort. -/
def dropDigits (passes : Decimal → Bool) (d : Decimal) : Nat → Decimal
  | 0 => d.trim
  | dropped + 1 =>
    match (d.neighbours (dropped + 1)).find? passes with
    | some short => short
    | none => dropDigits passes d dropped

/-- The decimal with the fewest digits among those that pass the test: all digits but the first
    may be dropped. -/
def fewestDigits (passes : Decimal → Bool) (d : Decimal) : Decimal :=
  dropDigits passes d ((Nat.toDigits 10 d.units).length - 1)

/-- Whatever the test, the result passes it, if only the exact decimal does. -/
theorem passes_fewestDigits {passes : Decimal → Bool} {d : Decimal}
    (h : passes d.trim = true) : passes (d.fewestDigits passes) = true := by
  have hdrop : ∀ dropped, passes (dropDigits passes d dropped) = true := by
    intro dropped
    induction dropped with
    | zero => exact h
    | succ dropped ih =>
      unfold dropDigits
      split
      · next short hfound => exact List.find?_some hfound
      · exact ih
  exact hdrop _

/-- The decimal with the fewest digits that reads back as the positive float `m · 2^e`. -/
def shortest (mantissa : Nat) (exponent : Int) (positive : 0 < mantissa) : Decimal :=
  let float := Float.ofModel (.pack (.finite .positive mantissa exponent positive))
  (ofBinary mantissa exponent).fewestDigits fun short => short.toFloat = float

end Reckoner.Decimal
