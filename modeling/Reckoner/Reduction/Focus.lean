/-
  One step of a reduction.

  A row under reduction holds values and operators.  A `Focus` is a row opened at one of its
  operators: what stands before it, nearest first, and what stands after it.  An operator's
  operands are then the heads of these two lists, and `Focus.reduce` puts the result in the
  place of the operator and its operands.

  The main statement is `length_reduce_lt`: a step that succeeds makes the row shorter.  This is
  why a reduction ends.
-/
import Reckoner.Operator.Meaning
import Reckoner.Reduction.Error

namespace Reckoner

/-- A position of a row under reduction. -/
inductive Item where
  | value (v : Value)
  | operator (op : Operator)
deriving DecidableEq

/-- The value at a position, if there is one. -/
def Item.value? : Item → Option Value
  | .value v => some v
  | .operator _ => none

/-- A row opened at one of its operators. -/
structure Focus where
  /-- What stands before the operator, the nearest first. -/
  before : List Item
  /-- The operator. -/
  operator : Operator
  /-- What stands after the operator. -/
  after : List Item

namespace Focus

/-- The row that is opened. -/
def row (focus : Focus) : List Item :=
  focus.before.reverse ++ .operator focus.operator :: focus.after

/-! ## Opening a row -/

/-- Opens a row at its first operator that passes the test, given what stands before it. -/
def firstAfter? (passes : Operator → Bool) (before : List Item) : List Item → Option Focus
  | [] => none
  | .value v :: rest => firstAfter? passes (.value v :: before) rest
  | .operator op :: rest =>
    if passes op then some ⟨before, op, rest⟩
    else firstAfter? passes (.operator op :: before) rest

/-- Opens a row at its first operator that passes the test. -/
def first? (passes : Operator → Bool) (items : List Item) : Option Focus :=
  firstAfter? passes [] items

/-- Opening a row changes nothing in it. -/
theorem row_firstAfter? {passes : Operator → Bool} {before items : List Item} {focus : Focus}
    (h : firstAfter? passes before items = some focus) :
    focus.row = before.reverse ++ items := by
  fun_induction firstAfter? passes before items with
  | case1 => cases h
  | case2 before v rest ih => rw [ih h]; simp
  | case3 before op rest hpass => cases h; rfl
  | case4 before op rest hpass ih => rw [ih h]; simp

/-- Opening a row changes nothing in it. -/
theorem row_first? {passes : Operator → Bool} {items : List Item} {focus : Focus}
    (h : first? passes items = some focus) : focus.row = items :=
  row_firstAfter? h

/-! ## Applying the operator -/

/-- A computed number between what stands before it and what stands after it. -/
def withResult (before : List Item) (result : Float) (after : List Item) : List Item :=
  before.reverse ++ .value (.computed result) :: after

/-- Applies the operator and puts the result in the place of the operator and its operands. -/
def reduce (focus : Focus) : Except ReductionError (List Item) :=
  match focus.operator, focus.before, focus.after with
  | .binary op, .value a :: before, .value b :: after =>
    match op.apply a b with
    | .ok result => .ok (withResult before result after)
    | .error cause => .error (.domain cause)
  | .function f, before, .value b :: after => .ok (withResult before (f.apply b.number) after)
  | .factorial, .value a :: before, after =>
    match Arithmetic.factorial a.number with
    | .ok result => .ok (withResult before result after)
    | .error cause => .error (.domain cause)
  | operator, before, _ => .error (.missingOperand before.length operator)

/-- A step that succeeds makes the row shorter. -/
theorem length_reduce_lt {focus : Focus} {reduced : List Item}
    (h : focus.reduce = .ok reduced) : reduced.length < focus.row.length := by
  obtain ⟨before, operator, after⟩ := focus
  unfold reduce at h
  split at h
  · next op a before' b after' hop hbefore hafter =>
    subst hop hbefore hafter
    split at h
    · cases h; simp [withResult, row]
    · cases h
  · next f b after' hop hafter =>
    subst hop hafter
    cases h; simp [withResult, row]
  · next a before' hop hbefore =>
    subst hop hbefore
    split at h
    · cases h; simp [withResult, row]
    · cases h
  · cases h

end Focus

end Reckoner
