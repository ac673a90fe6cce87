/-
  Factorials and selections.

  `factorial` is defined on the non-negative integers among the floats, both zeros included, and
  refuses everything else.  Up to `170!` the product fits a float; beyond that every factorial is
  infinite, and is not multiplied out.

  `permutations n r = n! / (n - r)!` and `combinations n r = n! / (r! · (n - r)!)` are computed
  on these factorials as they stand, so they refuse what their factorials refuse, and the
  factorial that is named first is the one that is reported.
-/
import Reckoner.Arithmetic.DomainError
import Reckoner.Number.Exact

namespace Reckoner.Arithmetic

open Number (infinity ofInteger whole?)

/-- The product `n!`, multiplied out from the inside, each step rounded. -/
def product : Nat → Float
  | 0 => 1
  | n + 1 => ofInteger (n + 1 : Nat) * product n

/-- The largest number whose factorial is finite. -/
def largestFactorial : Nat := 170

/-- The factorial of a natural number. -/
def factorialOfNat (n : Nat) : Float :=
  if n ≤ largestFactorial then product n else infinity

/-- The factorial of a float that is a non-negative integer. -/
def factorial (n : Float) : Except DomainError Float :=
  match whole? n with
  | some (.ofNat k) => .ok (factorialOfNat k)
  | some (.negSucc _) => .error (.factorial n)
  | none => .error (.factorial n)

/-- The number of ordered selections of `r` out of `n`. -/
def permutations (n r : Float) : Except DomainError Float := do
  let all ← factorial n
  let rest ← factorial (n - r)
  return all / rest

/-- The number of unordered selections of `r` out of `n`. -/
def combinations (n r : Float) : Except DomainError Float := do
  let all ← factorial n
  let chosen ← factorial r
  let rest ← factorial (n - r)
  return all / (chosen * rest)

end Reckoner.Arithmetic
