/-
  One step, for every operator.

  `Focus.reduce` has a rule for each of the three shapes of operators.  What the rules do alike is
  said by the arity: an operator takes so many values from what stands before it and from what
  stands behind it, and is refused if one of them is missing.

  The main statement is `Focus.reduce_eq`.  It says everything that a step can do, so what holds of
  every step is seen in three cases: an operand is missing, the operation has no value, or there is
  a result.
-/
import Reckoner.Reduction.Focus

namespace Reckoner

/-! ## The operands -/

/-- The value that a row begins with, if it begins with one. -/
def firstValue? (row : List Item) : Option Value :=
  row.head?.bind Item.value?

/-- What comes of an operator between two values: of those that it takes, none may be missing. -/
def Operator.result? (op : Operator) (left right : Option Value) :
    Option (Except DomainError Float) :=
  match op with
  | .binary op => left.bind fun a => right.map fun b => op.apply a b
  | .function f => right.map fun b => .ok (f.apply b.number)
  | .factorial => left.map fun a => Arithmetic.factorial a.number

/-- An operator can be applied exactly if the values that its arity takes are there. -/
theorem Operator.isSome_result? (op : Operator) (left right : Option Value) :
    (op.result? left right).isSome = true ↔
      (op.arity.takesLeft = true → left.isSome = true) ∧
        (op.arity.takesRight = true → right.isSome = true) := by
  cases op with
  | binary op =>
    cases left <;> cases right <;> simp [result?, arity, Arity.takesLeft, Arity.takesRight]
  | function f => cases right <;> simp [result?, arity, Arity.takesLeft, Arity.takesRight]
  | factorial => cases left <;> simp [result?, arity, Arity.takesLeft, Arity.takesRight]

/-! ## The step -/

namespace Focus

/-- What stands before the operator and is not one of its operands. -/
def passed (focus : Focus) : List Item :=
  focus.before.drop focus.operator.arity.takesLeft.toNat

/-- What stands behind the operator and is not one of its operands. -/
def remaining (focus : Focus) : List Item :=
  focus.after.drop focus.operator.arity.takesRight.toNat

/-- What comes of the operator where it stands. -/
def result? (focus : Focus) : Option (Except DomainError Float) :=
  focus.operator.result? (firstValue? focus.before) (firstValue? focus.after)

/-- **One step, for every operator.** -/
theorem reduce_eq (focus : Focus) :
    focus.reduce =
      match focus.result? with
      | none => .error (.missingOperand focus.before.length focus.operator)
      | some (.error cause) => .error (.domain cause)
      | some (.ok result) => .ok (withResult focus.passed result focus.remaining) := by
  obtain ⟨before, operator, after⟩ := focus
  cases operator with
  | binary op =>
    rcases before with _ | ⟨a | _, before⟩
    · rfl
    · rcases after with _ | ⟨b | _, after⟩
      · rfl
      · show _ = match some (op.apply a b) with
          | none => _
          | some (.error cause) => _
          | some (.ok result) => _
        cases happly : op.apply a b with
        | error cause => simp only [reduce, happly]
        | ok result => simp only [reduce, happly]; rfl
      · rfl
    · rfl
  | function f =>
    rcases after with _ | ⟨b | _, after⟩
    · rfl
    · rfl
    · rfl
  | factorial =>
    rcases before with _ | ⟨a | _, before⟩
    · rfl
    · show _ = match some (Arithmetic.factorial a.number) with
        | none => _
        | some (.error cause) => _
        | some (.ok result) => _
      cases happly : Arithmetic.factorial a.number with
      | error cause => simp only [reduce, happly]
      | ok result => simp only [reduce, happly]; rfl
    · rfl

end Focus

end Reckoner
