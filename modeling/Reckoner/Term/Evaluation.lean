/-
  The value of a row of terms.

  Each group is a row of its own and is evaluated before the row around it is reduced.  Positions
  are resolved from left to right, so the leftmost number that cannot be read or group that
  fails decides the outcome.  A group's value is a computed number: it has no text, whatever
  stood in the group.
-/
import Reckoner.Reduction.Tiers
import Reckoner.Term

namespace Reckoner

namespace Term

mutual

/-- The item at a position: a number is read, a group is evaluated. -/
def resolve : Term → Except ReductionError Item
  | .number text =>
    match Number.read? text with
    | some x => .ok (.value ⟨x, some text⟩)
    | none => .error (.unreadable text)
  | .operator op => .ok (.operator op)
  | .group children => do
    let items ← resolveAll children
    let x ← Reduction.reduceRow items
    return .value (.computed x)

/-- The items of a row, from left to right. -/
def resolveAll : List Term → Except ReductionError (List Item)
  | [] => .ok []
  | term :: rest => do
    let item ← resolve term
    let items ← resolveAll rest
    return item :: items

end

/-- The value of a row of terms. -/
def evaluate (terms : List Term) : Except ReductionError Float := do
  let items ← resolveAll terms
  Reduction.reduceRow items

end Term

/-- The value of a list of tokens, grouped or not. -/
def Token.evaluate (tokens : List Token) : Except ReductionError Float :=
  Term.evaluate (Term.ofTokens tokens)

end Reckoner
