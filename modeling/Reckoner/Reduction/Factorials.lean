/-
  The factorials of a row, before anything else is applied.

  One pass from left to right keeps what has been passed, the latest first.  A `!` uses up the
  value passed just before it; so `3 ! !` is the factorial of the factorial of three.  A `!` that
  finds no value there is reported with its position in the row as it was written.
-/
import Reckoner.Reduction.Focus

namespace Reckoner.Reduction

/-- Applies the factorials of a row, given the position reached and what has been passed. -/
def applyFactorialsAfter (position : Nat) (passed : List Item) :
    List Item → Except ReductionError (List Item)
  | [] => .ok passed.reverse
  | .operator .factorial :: rest =>
    match passed with
    | .value a :: before =>
      match Arithmetic.factorial a.number with
      | .ok result =>
        applyFactorialsAfter (position + 1) (.value (.computed result) :: before) rest
      | .error cause => .error (.domain cause)
    | _ => .error (.missingOperand position .factorial)
  | item :: rest => applyFactorialsAfter (position + 1) (item :: passed) rest

/-- Applies every factorial of a row. -/
def applyFactorials (items : List Item) : Except ReductionError (List Item) :=
  applyFactorialsAfter 0 [] items

end Reckoner.Reduction
