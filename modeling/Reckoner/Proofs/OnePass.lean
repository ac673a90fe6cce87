/-
  Starting again at the front is one pass.

  `Reduction.applyAll` searches the row for its leftmost operator that passes the test, puts the
  result in the place of the operator and its operands, and starts again at the front of the new
  row.  The same work is done by going through the row once with a stack: what has been passed is
  moved to the stack, and an operator that passes the test finds the operands its arity takes on
  top of the stack and next in the row.

  `sweepFrom` is such a pass, and ends as `applyAll` does.  But two reductions may end alike and
  apply their operators in another order, or to other numbers.  So both are watched here: a
  `Trace` holds the row as it stood open at each operator that was applied, besides the end.

  1. **One step (`Focus.reduce_eq`)** — an operator takes from the row what its arity says, and the
     three shapes of operators are one case: so many values are dropped before it and behind it.

  2. **The crux (`traceAll_eq_passFrom`)** — as long as nothing on the stack passes the test, the
     next operator that does is the leftmost of the row, so the row is opened where the pass is,
     with the stack in front.  By the recursion of the pass.

  3. **Positions** — a program that searches, splices and starts over on positions does the same
     (`Positions.reduceTier_eq`), so the position that it reports is the height of the stack.
-/
import Reckoner.Proofs.Positions.Reduction
import Reckoner.Proofs.Step

namespace Reckoner.Reduction

variable {passes : Operator → Bool}

/-! ## Watching -/

/-- What a reduction did, and how it ended. -/
structure Trace where
  /-- The row as it stood open at each operator, in the order in which they were applied; the last
      one may have been refused. -/
  steps : List Focus
  /-- The row that is left, or why there is none. -/
  outcome : Except ReductionError (List Item)

/-- A trace with one step in front. -/
def Trace.after (focus : Focus) (trace : Trace) : Trace :=
  ⟨focus :: trace.steps, trace.outcome⟩

/-- `applyAll`, watched. -/
def traceAll (passes : Operator → Bool) (items : List Item) : Trace :=
  match hfocus : Focus.first? passes items with
  | none => ⟨[], .ok items⟩
  | some focus =>
    match hreduce : focus.reduce with
    | .error e => .after focus ⟨[], .error e⟩
    | .ok reduced =>
      have : reduced.length < items.length := by
        rw [← Focus.row_first? hfocus]
        exact Focus.length_reduce_lt hreduce
      .after focus (traceAll passes reduced)
termination_by items.length

/-- Watching changes nothing. -/
theorem outcome_traceAll (passes : Operator → Bool) (items : List Item) :
    (traceAll passes items).outcome = applyAll passes items := by
  fun_induction traceAll passes items with
  | case1 items hfocus => rw [applyAll_of_first?_eq_none hfocus]
  | case2 items focus hfocus e hreduce =>
    rw [applyAll_of_first?_eq_some hfocus, hreduce]
    rfl
  | case3 items focus hfocus reduced hreduce _ ih =>
    rw [applyAll_of_first?_eq_some hfocus, hreduce]
    exact ih

/-- One pass over what is left of a row, watched, given the stack of what has been passed.  An
    operator that passes the test takes its operands from the top of the stack and from the front
    of the row, and the result goes onto the stack. -/
def passFrom (passes : Operator → Bool) (stack : List Item) : List Item → Trace
  | [] => ⟨[], .ok stack.reverse⟩
  | .value v :: rest => passFrom passes (.value v :: stack) rest
  | .operator op :: rest =>
    if passes op then
      let focus : Focus := ⟨stack, op, rest⟩
      match focus.result? with
      | none => .after focus ⟨[], .error (.missingOperand stack.length op)⟩
      | some (.error cause) => .after focus ⟨[], .error (.domain cause)⟩
      | some (.ok result) =>
        .after focus (passFrom passes (.value (.computed result) :: focus.passed) focus.remaining)
    else passFrom passes (.operator op :: stack) rest
termination_by items => items.length
decreasing_by
  · simp
  · simp only [Focus.remaining, List.length_drop, List.length_cons]
    omega
  · simp

/-- What a pass does at an operator that passes the test. -/
theorem passFrom_of_passes {op : Operator} (hop : passes op = true)
    (stack rest : List Item) :
    passFrom passes stack (.operator op :: rest) =
      .after ⟨stack, op, rest⟩
        (match Focus.result? ⟨stack, op, rest⟩ with
          | none => ⟨[], .error (.missingOperand stack.length op)⟩
          | some (.error cause) => ⟨[], .error (.domain cause)⟩
          | some (.ok result) =>
            passFrom passes (.value (.computed result) :: Focus.passed ⟨stack, op, rest⟩)
              (Focus.remaining ⟨stack, op, rest⟩)) := by
  rw [passFrom, if_pos hop]
  rcases hresult : Focus.result? ⟨stack, op, rest⟩ with _ | (cause | result)
  · simp only [hresult]
  · simp only [hresult]
  · simp only [hresult]

/-- One pass over a row, watched. -/
def pass (passes : Operator → Bool) (items : List Item) : Trace :=
  passFrom passes [] items

/-! ## The two agree -/

/-- Where nothing passes the test, nothing is done. -/
theorem traceAll_of_nonePass {row : List Item} (h : NonePass passes row) :
    traceAll passes row = ⟨[], .ok row⟩ := by
  rw [traceAll]
  split
  · rfl
  · next focus hfocus => rw [Focus.first?_of_nonePass h] at hfocus; cases hfocus

/-- Where the row is opened, its operator is applied, and the reduction goes on with what the step
    leaves. -/
theorem traceAll_of_first?_eq_some {row : List Item} {focus : Focus}
    (h : Focus.first? passes row = some focus) :
    traceAll passes row = .after focus
      (match focus.reduce with
        | .error e => ⟨[], .error e⟩
        | .ok reduced => traceAll passes reduced) := by
  rw [traceAll]
  split
  · next hfocus => rw [h] at hfocus; cases hfocus
  · next focus' hfocus =>
    rw [h] at hfocus
    cases hfocus
    split
    · next e hreduce => simp only [hreduce]
    · next reduced hreduce => simp only [hreduce]

/-- What is dropped from a stack leaves nothing that passes. -/
theorem NonePass.passed {focus : Focus} (h : NonePass passes focus.before) :
    NonePass passes focus.passed :=
  fun op hop => h op (List.mem_of_mem_drop hop)

/-- A pass with nothing on its stack that passes the test does, step by step, what starting again
    does to the whole row. -/
theorem traceAll_eq_passFrom {stack items : List Item} (hstack : NonePass passes stack) :
    traceAll passes (stack.reverse ++ items) = passFrom passes stack items := by
  fun_induction passFrom passes stack items with
  | case1 stack => rw [List.append_nil, traceAll_of_nonePass hstack.reverse]
  | case2 stack v rest ih =>
    rw [← ih (hstack.cons_value v), List.reverse_cons, List.append_assoc]
    rfl
  | case3 stack op rest hop focus hmissing =>
    rw [traceAll_of_first?_eq_some (Focus.first?_of_passes hstack hop), Focus.reduce_eq, hmissing]
  | case4 stack op rest hop focus cause hrefused =>
    rw [traceAll_of_first?_eq_some (Focus.first?_of_passes hstack hop), Focus.reduce_eq, hrefused]
  | case5 stack op rest hop focus result hresult ih =>
    have hpassed : NonePass passes focus.passed := NonePass.passed hstack
    rw [traceAll_of_first?_eq_some (Focus.first?_of_passes hstack hop), Focus.reduce_eq, hresult,
      ← ih (hpassed.cons_value _), List.reverse_cons, List.append_assoc]
    rfl
  | case6 stack op rest hop ih =>
    have hfalse : passes op = false := Bool.eq_false_iff.2 hop
    rw [← ih (hstack.cons_operator hfalse), List.reverse_cons, List.append_assoc]
    rfl

theorem traceAll_eq_pass (passes : Operator → Bool) (items : List Item) :
    traceAll passes items = pass passes items := by
  have hnil : NonePass passes [] := fun _ hop => nomatch hop
  exact traceAll_eq_passFrom hnil

/-- **Reducing a tier is one pass with a stack.**  The leftmost operator of the tier, searched for
    from the front after every step, is the next one that the pass meets: the same operators are
    applied in the same order, each with the same items before it and behind it, and the reduction
    ends with the same row or the same refusal.  So it does when it works by positions. -/
theorem applyTier_in_one_pass (tier : Tier) (items : List Item) :
    traceAll (inTier tier) items = pass (inTier tier) items ∧
      applyTier tier items = (pass (inTier tier) items).outcome ∧
      Positions.reduceTier tier items = Positions.answer (pass (inTier tier) items).outcome := by
  have htrace := traceAll_eq_pass (inTier tier) items
  have houtcome : applyTier tier items = (pass (inTier tier) items).outcome := by
    rw [← htrace, outcome_traceAll]
    rfl
  exact ⟨htrace, houtcome, by rw [Positions.reduceTier_eq, houtcome]⟩

end Reckoner.Reduction
