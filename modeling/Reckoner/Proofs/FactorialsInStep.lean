/-
  The factorials of a row, in one pass or one after the other.

  The factorials of a row are applied before its tiers, by a pass of their own: `applyFactorials`
  keeps what it has passed, and a `!` uses up the value passed just before it.  But the factorial
  is an operator of a tier as well, and has a step like every operator.  So its row could be reduced
  like a tier: search for the leftmost `!`, put the result in the place of the `!` and its operand,
  and start again at the front.

  The two end alike, with the same row or the same refusal.  They differ in where they see a `!`
  without an operand.  The pass counts the row as it was written, the reduction the row as it has
  become, which is shorter by one item for each factorial that has been applied.

  1. **One pass (`traceAll_eq_pass`)** — the reduction, watched, does what a pass with a stack does.
     So both are read along the row, and their stacks hold the same items.

  2. **The crux (`inStep_passFrom`)** — every item in front of the place reached was either moved to
     the stack, or is a `!` and was a step.  So the height of the stack and the number of steps
     together grow by one with every item, as the position does.

  3. **Positions (`Positions.reduceAll_eq`)** — a program that searches for the `!` by its position,
     and splices its row there, does the same.
-/
import Reckoner.Proofs.OnePass

namespace Reckoner.Reduction

/-! ## Endings -/

/-- How two treatments of the factorials among some items end together: the first counts positions,
    from the one at which the items begin; the second has a stack of some height in front of them. -/
inductive InStep (position height : Nat) (items : List Item) :
    Except ReductionError (List Item) → Trace → Prop
  /-- The same row is left. -/
  | folded (steps : List Focus) (row : List Item) :
      InStep position height items (.ok row) ⟨steps, .ok row⟩
  /-- A factorial has no value. -/
  | refused (steps : List Focus) (cause : DomainError) :
      InStep position height items (.error (.domain cause)) ⟨steps, .error (.domain cause)⟩
  /-- A `!` has no operand: the same `!` for both, since the same items stand behind it. -/
  | missing (index : Nat) (front behind before : List Item) (done : List Focus)
      (items_eq : items = front ++ .operator .factorial :: behind)
      (index_eq : index = position + front.length)
      (length_done : done.length = front.count (.operator .factorial))
      (length_before : before.length + done.length = height + front.length) :
      InStep position height items (.error (.missingOperand index .factorial))
        ⟨done ++ [⟨before, .factorial, behind⟩], .error (.missingOperand before.length .factorial)⟩

namespace InStep

variable {position height : Nat} {rest : List Item}
  {outcome : Except ReductionError (List Item)} {trace : Trace}

/-- An item that is no factorial is moved to the stack. -/
theorem move {item : Item} (hitem : item ≠ .operator .factorial)
    (h : InStep (position + 1) (height + 1) rest outcome trace) :
    InStep position height (item :: rest) outcome trace := by
  cases h with
  | folded steps row => exact .folded steps row
  | refused steps cause => exact .refused steps cause
  | missing index front behind before done hrest hindex hdone hbefore =>
    refine .missing index (item :: front) behind before done ?_ ?_ ?_ ?_
    · rw [hrest, List.cons_append]
    · rw [List.length_cons]
      omega
    · rw [hdone, List.count_cons_of_ne hitem]
    · rw [List.length_cons]
      omega

/-- A factorial that is applied is one more step, and leaves the height of the stack. -/
theorem step (focus : Focus) (h : InStep (position + 1) height rest outcome trace) :
    InStep position height (.operator .factorial :: rest) outcome (.after focus trace) := by
  cases h with
  | folded steps row => exact .folded (focus :: steps) row
  | refused steps cause => exact .refused (focus :: steps) cause
  | missing index front behind before done hrest hindex hdone hbefore =>
    refine .missing index (.operator .factorial :: front) behind before (focus :: done) ?_ ?_ ?_ ?_
    · rw [hrest, List.cons_append]
    · rw [List.length_cons]
      omega
    · rw [List.length_cons, hdone, List.count_cons_self]
    · rw [List.length_cons, List.length_cons]
      omega

end InStep

/-! ## The two passes -/

/-- An item that is no factorial is moved to the stack of the pass. -/
theorem passFrom_of_ne {item : Item} (hitem : item ≠ .operator .factorial)
    (stack rest : List Item) :
    passFrom isFactorial stack (item :: rest) = passFrom isFactorial (item :: stack) rest := by
  cases item with
  | value v => rw [passFrom]
  | operator op =>
    have hop : ¬ isFactorial op = true := by
      intro htrue
      exact hitem (congrArg Item.operator (of_decide_eq_true htrue))
    rw [passFrom, if_neg hop]

/-- **The two passes go along the row in step.**  By the recursion of the first. -/
theorem inStep_passFrom (position : Nat) (stack items : List Item) :
    InStep position stack.length items (applyFactorialsAfter position stack items)
      (passFrom isFactorial stack items) := by
  fun_induction applyFactorialsAfter position stack items with
  | case1 position stack =>
    rw [passFrom]
    exact .folded [] stack.reverse
  | case2 position rest a before result happly ih =>
    have hresult : Focus.result? ⟨.value a :: before, .factorial, rest⟩ = some (.ok result) :=
      congrArg some happly
    rw [passFrom_of_passes rfl, hresult]
    exact ih.step _
  | case3 position rest a before cause happly =>
    have hresult : Focus.result? ⟨.value a :: before, .factorial, rest⟩ = some (.error cause) :=
      congrArg some happly
    rw [passFrom_of_passes rfl, hresult]
    exact .refused [_] cause
  | case4 position stack rest hstack =>
    have hresult : Focus.result? ⟨stack, .factorial, rest⟩ = none := by
      rcases stack with _ | ⟨v | op, before⟩
      · rfl
      · exact (hstack v before rfl).elim
      · rfl
    rw [passFrom_of_passes rfl, hresult]
    exact .missing position [] rest stack [] rfl rfl rfl rfl
  | case5 position stack item rest hitem ih =>
    rw [passFrom_of_ne hitem]
    exact ih.move hitem

theorem inStep_traceAll (items : List Item) :
    InStep 0 0 items (applyFactorials items) (traceAll isFactorial items) := by
  rw [traceAll_eq_pass]
  exact inStep_passFrom 0 [] items

/-- A `!` without an operand is reported with its place in the row as it was written. -/
theorem exists_front_of_applyFactorials {items : List Item} {index : Nat} {op : Operator}
    (h : applyFactorials items = .error (.missingOperand index op)) :
    op = .factorial ∧ ∃ front behind, items = front ++ .operator op :: behind ∧
      index = front.length := by
  have hstep := inStep_traceAll items
  rw [h] at hstep
  generalize traceAll isFactorial items = trace at hstep
  cases hstep with
  | missing index front behind before done hitems hindex hdone hbefore =>
    rw [Nat.zero_add] at hindex
    exact ⟨rfl, front, behind, hitems, hindex⟩

/-- No factorial is left by the pass. -/
theorem factorial_not_mem_of_applyFactorials {items row : List Item}
    (h : applyFactorials items = .ok row) : .operator .factorial ∉ row := by
  intro hmem
  have hsweep := applyFactorials_eq_ok_iff.1 h
  obtain ⟨-, hfalse⟩ := operators_of_sweep (fun _ _ => trivial) hsweep .factorial hmem
  cases hfalse

/-! ## The row -/

/-- **The factorials in one pass are the factorials one after the other.**  For every row, the pass
    over its factorials and the reduction of its leftmost `!` until none is left end in one of three
    ways, together: with the same row, which holds no `!`; at a factorial without a value, for the
    same cause; or at the same `!` without an operand.  In the last case the pass names the place of
    the `!` in the row as it was written, and the reduction its place in the row as it has become,
    which is smaller by the number of factorials that have been applied, those written in front.
    So it is when both work by positions. -/
theorem applyFactorials_one_by_one (items : List Item) :
    Positions.foldFrom 0 [] items = Positions.answer (applyFactorials items) ∧
      Positions.reduceAll isFactorial items =
        Positions.answer (traceAll isFactorial items).outcome ∧
      ((∃ row, applyFactorials items = .ok row ∧ (traceAll isFactorial items).outcome = .ok row ∧
          .operator .factorial ∉ row) ∨
        (∃ cause, applyFactorials items = .error (.domain cause) ∧
          (traceAll isFactorial items).outcome = .error (.domain cause)) ∨
        ∃ front behind before done, items = front ++ .operator .factorial :: behind ∧
          applyFactorials items = .error (.missingOperand front.length .factorial) ∧
          traceAll isFactorial items = ⟨done ++ [⟨before, .factorial, behind⟩],
            .error (.missingOperand before.length .factorial)⟩ ∧
          done.length = front.count (.operator .factorial) ∧
          before.length + done.length = front.length) := by
  refine ⟨Positions.foldFrom_eq 0 [] items, ?_, ?_⟩
  · rw [Positions.reduceAll_eq, outcome_traceAll]
  · have hstep := inStep_traceAll items
    have hnone : ∀ row, applyFactorials items = .ok row → .operator .factorial ∉ row :=
      fun row hrow => factorial_not_mem_of_applyFactorials hrow
    generalize applyFactorials items = outcome at hstep hnone ⊢
    generalize traceAll isFactorial items = trace at hstep ⊢
    cases hstep with
    | folded steps row => exact .inl ⟨row, rfl, rfl, hnone row rfl⟩
    | refused steps cause => exact .inr (.inl ⟨cause, rfl, rfl⟩)
    | missing index front behind before done hitems hindex hdone hbefore =>
      rw [Nat.zero_add] at hindex hbefore
      subst hindex
      exact .inr (.inr ⟨front, behind, before, done, hitems, rfl, rfl, hdone, hbefore⟩)

/-- The second `!` of `3 ! + !` has no operand.  It is written at index 3, and found at index 2 when
    the first is applied. -/
example :
    let items : List Item := [.value (.computed 3), .operator .factorial,
      .operator (.binary .add), .operator .factorial]
    applyFactorials items = .error (.missingOperand 3 .factorial) ∧
      applyAll isFactorial items = .error (.missingOperand 2 .factorial) := by
  decide +kernel

end Reckoner.Reduction
