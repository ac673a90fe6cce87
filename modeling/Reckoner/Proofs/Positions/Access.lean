/-
  Working on a row by positions.

  A program that keeps its rows in memory addresses them by position: it reads the token at an
  index, takes the stretch between two indices, and computes indices by subtraction.  Each of
  these can go wrong, and where the program relies on something it does not check, it can go
  wrong as well: on a parenthesis where grouping should have left none, on operands that do not
  suit their operator, on an operator that should have been applied.

  A `Fault` is any of these mistakes.  It is kept apart from a `ReductionError`, which is an
  answer to the user: work by positions stops for one reason or the other.
-/
import Reckoner.Reduction.Focus

namespace Reckoner.Positions

/-- The operands given to an operator, by where they stand. -/
inductive Operands where
  | around (a b : Value)
  | next (b : Value)
  | previous (a : Value)

/-- A mistake in working by positions. -/
inductive Fault where
  /-- A position outside its row. -/
  | position (index length : Nat)
  /-- A stretch that does not lie in its row. -/
  | stretch (start stop length : Nat)
  /-- A difference below zero. -/
  | difference (a b : Nat)
  /-- A parenthesis among the tokens to resolve. -/
  | parenthesis
  /-- A value at a position where an operator is applied. -/
  | value (v : Value)
  /-- Operands that do not suit their operator. -/
  | operands (op : Operator) (operands : Operands)
  /-- An operator among the results. -/
  | operator (op : Operator)

/-- Why work by positions stops without a result. -/
inductive Stop where
  /-- A mistake. -/
  | fault (fault : Fault)
  /-- The row has no value. -/
  | refusal (e : ReductionError)

variable {α : Type}

/-- The element at a position. -/
def elementAt (row : List α) (index : Nat) : Except Stop α :=
  match row[index]? with
  | some a => .ok a
  | none => .error (.fault (.position index row.length))

/-- The stretch of a row from one position up to another. -/
structure Stretch (row : List α) (start stop : Nat) where
  /-- What stands in it. -/
  elements : List α
  /-- It does not run backwards. -/
  ordered : start ≤ stop
  /-- It lies in the row. -/
  within : stop ≤ row.length
  /-- It leaves nothing out. -/
  length_elements : elements.length = stop - start

/-- Takes a stretch out of a row. -/
def stretch (row : List α) (start stop : Nat) : Except Stop (Stretch row start stop) :=
  if h : start ≤ stop ∧ stop ≤ row.length then
    .ok ⟨(row.take stop).drop start, h.1, h.2, by
      rw [List.length_drop, List.length_take, Nat.min_eq_left h.2]⟩
  else .error (.fault (.stretch start stop row.length))

/-- The difference of two positions. -/
def difference (a b : Nat) : Except Stop Nat :=
  if b ≤ a then .ok (a - b) else .error (.fault (.difference a b))

/-- The position behind the first part of a row is that of the element there. -/
theorem elementAt_append (before : List α) (a : α) (after : List α) :
    elementAt (before ++ a :: after) before.length = .ok a := by
  rw [elementAt, List.getElem?_append_right (Nat.le_refl _), Nat.sub_self]
  rfl

/-- The middle part of a row is the stretch between the lengths. -/
theorem stretch_eq {row before inner after : List α} {start stop : Nat}
    (hrow : row = before ++ inner ++ after) (hstart : start = before.length)
    (hstop : stop = before.length + inner.length) :
    ∃ taken : Stretch row start stop, taken.elements = inner ∧ stretch row start stop = .ok taken := by
  subst hrow hstart hstop
  have hbounds : before.length ≤ before.length + inner.length ∧
      before.length + inner.length ≤ (before ++ inner ++ after).length := by
    simp only [List.length_append]
    omega
  refine ⟨_, ?_, dif_pos hbounds⟩
  show ((before ++ inner ++ after).take (before.length + inner.length)).drop before.length = inner
  rw [← List.length_append, List.take_left, List.drop_left]

theorem difference_of_le {a b : Nat} (h : b ≤ a) : difference a b = .ok (a - b) :=
  if_pos h

end Reckoner.Positions
