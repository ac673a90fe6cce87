/-
  Why a reduction stops, and where.

  A row is reduced to its result in two steps: the passes apply its operators, and then what is left
  is counted.  The two fail for different reasons.

  1. **Kinds (`failsOnly_reduced`, `failsOnly_result`)** — a pass fails only at an operator, because
     an operand is missing or the operation has no value; the count fails only because there is no
     number or more than one.  So the kind of a failure tells which of the two failed.

  2. **Places (`exists_front_of_sweepFrom`)** — a pass reports a missing operand with the height of
     its stack.  That height is the length of what the same pass makes of the items in front of the
     operator, since nothing behind the operator has been touched yet.
-/
import Reckoner.Proofs.Step
import Reckoner.Proofs.Sweep

namespace Reckoner

open Outcome (FailsOnly)

/-! ## Kinds of failures -/

/-- The failure of an operator: it cannot be applied where it stands. -/
inductive ReductionError.IsRefusal : ReductionError → Prop
  | missingOperand (index : Nat) (operator : Operator) : IsRefusal (.missingOperand index operator)
  | domain (cause : DomainError) : IsRefusal (.domain cause)

/-- The failure of a row whose operators have been applied: there is not one number left. -/
inductive ReductionError.IsMiscount : ReductionError → Prop
  | tooManyResults (first second : Float) : IsMiscount (.tooManyResults first second)
  | nothing : IsMiscount .nothing

open ReductionError (IsRefusal IsMiscount)

theorem ReductionError.IsMiscount.not_isRefusal {e : ReductionError} (h : e.IsMiscount) :
    ¬ e.IsRefusal := by
  rintro (_ | _)
  · cases h
  · cases h

/-- A step fails at its operator. -/
theorem Focus.failsOnly_reduce (focus : Focus) : FailsOnly IsRefusal focus.reduce := by
  rw [reduce_eq]
  rcases focus.result? with _ | (cause | x)
  · exact .error (.missingOperand _ _)
  · exact .error (.domain cause)
  · exact .ok _

namespace Reduction

variable {passes : Operator → Bool}

/-- What every step does, a reduction does. -/
theorem failsOnly_applyAll (passes : Operator → Bool) (row : List Item) :
    FailsOnly IsRefusal (applyAll passes row) := by
  fun_induction applyAll passes row with
  | case1 row hfocus => exact .ok row
  | case2 row focus hfocus e hreduce => exact .error (focus.failsOnly_reduce e hreduce)
  | case3 row focus hfocus reduced hreduce _ ih => exact ih

theorem failsOnly_applyFactorialsAfter (position : Nat) (passed items : List Item) :
    FailsOnly IsRefusal (applyFactorialsAfter position passed items) := by
  fun_induction applyFactorialsAfter position passed items with
  | case1 position passed => exact .ok _
  | case2 position rest a before result happly ih => exact ih
  | case3 position rest a before cause happly => exact .error (.domain cause)
  | case4 position passed rest hnone => exact .error (.missingOperand position .factorial)
  | case5 position passed item rest hother ih => exact ih

theorem failsOnly_foldlM_applyTier (tiers : List Tier) (row : List Item) :
    FailsOnly IsRefusal (tiers.foldlM (fun items tier => applyTier tier items) row) := by
  induction tiers generalizing row with
  | nil => exact .ok row
  | cons tier tiers ih =>
    rw [List.foldlM_cons]
    exact (failsOnly_applyAll _ row).bind ih

/-- **The passes fail at an operator.** -/
theorem failsOnly_reduced (row : List Item) : FailsOnly IsRefusal (reduced row) := by
  rw [reduced_eq_tiers]
  exact (failsOnly_applyFactorialsAfter 0 [] row).bind (failsOnly_foldlM_applyTier _)

/-- What is left is counted, and that is all that can fail then. -/
theorem failsOnly_result (row : List Item) : FailsOnly IsMiscount (result row) := by
  rw [result]
  rcases row.filterMap Item.value? with _ | ⟨v, _ | ⟨w, rest⟩⟩
  · exact .error .nothing
  · exact .ok _
  · exact .error (.tooManyResults _ _)

/-- A failure at an operator is a failure of the passes. -/
theorem reduced_of_isRefusal {items : List Item} {e : ReductionError}
    (h : reduceRow items = .error e) (hrefusal : e.IsRefusal) : reduced items = .error e := by
  rw [reduceRow_eq] at h
  rcases Outcome.bind_eq_error.1 h with hreduced | ⟨row, -, hresult⟩
  · exact hreduced
  · exact ((failsOnly_result row e hresult).not_isRefusal hrefusal).elim

/-- A miscount is found when all operators have been applied. -/
theorem exists_reduced_of_isMiscount {items : List Item} {e : ReductionError}
    (h : reduceRow items = .error e) (hcount : e.IsMiscount) :
    ∃ row, reduced items = .ok row ∧ result row = .error e := by
  rw [reduceRow_eq] at h
  rcases Outcome.bind_eq_error.1 h with hreduced | hrow
  · exact (hcount.not_isRefusal (failsOnly_reduced items e hreduced)).elim
  · exact hrow

/-! ## Places of missing operands -/

/-- **The index of a missing operand is what the pass has made of the items in front of the
    operator.**  By the recursion of the pass; each step consumes some items, which then stand in
    front. -/
theorem exists_front_of_sweepFrom {done items : List Item} {index : Nat} {op : Operator}
    (h : sweepFrom passes done items = .error (.missingOperand index op)) :
    passes op = true ∧ ∃ front behind row, items = front ++ .operator op :: behind ∧
      sweepFrom passes done front = .ok row ∧ row.length = index := by
  fun_induction sweepFrom passes done items with
  | case1 done => cases h
  | case2 done v rest ih =>
    obtain ⟨hop, front, behind, row, rfl, hfront, hlength⟩ := ih h
    exact ⟨hop, .value v :: front, behind, row, rfl, hfront, hlength⟩
  | case3 op' a before b after result happly hop' ih =>
    obtain ⟨hop, front, behind, row, rfl, hfront, hlength⟩ := ih h
    refine ⟨hop, .operator (.binary op') :: .value b :: front, behind, row, rfl, ?_, hlength⟩
    simp only [sweepFrom, hop', happly, if_true]
    exact hfront
  | case4 => cases h
  | case5 f before b after hop' ih =>
    obtain ⟨hop, front, behind, row, rfl, hfront, hlength⟩ := ih h
    refine ⟨hop, .operator (.function f) :: .value b :: front, behind, row, rfl, ?_, hlength⟩
    simp only [sweepFrom, hop', if_true]
    exact hfront
  | case6 a before after result happly hop' ih =>
    obtain ⟨hop, front, behind, row, rfl, hfront, hlength⟩ := ih h
    refine ⟨hop, .operator .factorial :: front, behind, row, rfl, ?_, hlength⟩
    simp only [sweepFrom, hop', happly, if_true]
    exact hfront
  | case7 => cases h
  | case8 rest op' before _ _ _ hop' =>
    -- the pass is refused here, so all it has made is on the stack
    cases h
    exact ⟨hop', [], rest, before.reverse, rfl, rfl, List.length_reverse⟩
  | case9 done op' rest hop' ih =>
    obtain ⟨hop, front, behind, row, rfl, hfront, hlength⟩ := ih h
    refine ⟨hop, .operator op' :: front, behind, row, rfl, ?_, hlength⟩
    rw [sweepFrom_operator (Bool.eq_false_iff.2 hop')]
    exact hfront

theorem exists_front_of_sweep {items : List Item} {index : Nat} {op : Operator}
    (h : sweep passes items = .error (.missingOperand index op)) :
    passes op = true ∧ ∃ front behind row, items = front ++ .operator op :: behind ∧
      sweep passes front = .ok row ∧ row.length = index :=
  exists_front_of_sweepFrom h

end Reduction

end Reckoner
