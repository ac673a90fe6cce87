/-
  From a row of values and operators to one number.

  The factorials are applied first.  Then each tier in turn is applied to the whole row: its
  leftmost operator, then the leftmost that is left, until the row holds none of the tier.  What
  remains after the last tier is the answer, if it is a single number.

  Powers are no exception to "leftmost first": `2 ** 3 ** 2` is `(2 ** 3) ** 2`.
-/
import Reckoner.Reduction.Factorials

namespace Reckoner.Reduction

/-- Applies the leftmost operator that passes the test until the row holds none. -/
def applyAll (passes : Operator → Bool) (items : List Item) :
    Except ReductionError (List Item) :=
  match hfocus : Focus.first? passes items with
  | none => .ok items
  | some focus =>
    match hreduce : focus.reduce with
    | .error e => .error e
    | .ok reduced =>
      have : reduced.length < items.length := by
        rw [← Focus.row_first? hfocus]
        exact Focus.length_reduce_lt hreduce
      applyAll passes reduced
termination_by items.length

/-- Applies every operator of a tier, the leftmost first. -/
def applyTier (tier : Tier) (items : List Item) : Except ReductionError (List Item) :=
  applyAll (·.tier = tier) items

/-- The number that is left in a row, if it is the only one. -/
def result (items : List Item) : Except ReductionError Float :=
  match items.filterMap Item.value? with
  | [] => .error .nothing
  | [v] => .ok v.number
  | v :: w :: _ => .error (.tooManyResults v.number w.number)

/-- The value of a row of values and operators. -/
def reduceRow (items : List Item) : Except ReductionError Float := do
  let folded ← applyFactorials items
  let reduced ← Tier.applied.foldlM (fun items tier => applyTier tier items) folded
  result reduced

end Reckoner.Reduction
