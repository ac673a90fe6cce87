/-
  Reducing a tier in one pass.

  `applyAll` opens a row at its leftmost operator that passes the test, applies it, and starts
  again at the front of the new row.  Nothing in front of the place it has reached can still pass,
  so the restart finds nothing there.  `sweepFrom` is what remains when the restart is left out:
  one pass with a stack of what has been passed, the nearest on top.

  1. **The invariant** — `NonePass passes done`: no operator on the stack passes the test.  It
     holds of the empty stack, and every step of the pass keeps it, because an operator is put on
     the stack only when it does not pass, and a result is a value.

  2. **The crux (`applyAll_of_passes`)** — under the invariant, the next operator that passes is
     the leftmost one of the whole row, so `applyAll` opens the row exactly there.

  3. **What a pass leaves behind (`operators_of_sweepFrom`)** — only operators that were there
     before and do not pass the test.

  4. **All passes (`reduced`)** — the factorials, which are a pass of their own, and then the tiers.
     Since every operator is of one of the tiers, none is left (`operator_not_mem_of_reduced`).
-/
import Reckoner.Proofs.Outcome
import Reckoner.Reduction.Tiers

namespace Reckoner

/-- No operator in the row passes the test. -/
def NonePass (passes : Operator → Bool) (row : List Item) : Prop :=
  ∀ op, .operator op ∈ row → passes op = false

theorem NonePass.reverse {passes : Operator → Bool} {row : List Item} (h : NonePass passes row) :
    NonePass passes row.reverse :=
  fun op hop => h op (List.mem_reverse.1 hop)

theorem NonePass.cons_value {passes : Operator → Bool} {row : List Item}
    (h : NonePass passes row) (v : Value) : NonePass passes (.value v :: row) := by
  intro op hop
  rcases List.mem_cons.1 hop with heq | hmem
  · cases heq
  · exact h op hmem

theorem NonePass.cons_operator {passes : Operator → Bool} {row : List Item}
    (h : NonePass passes row) {op : Operator} (hop : passes op = false) :
    NonePass passes (.operator op :: row) := by
  intro op' hop'
  rcases List.mem_cons.1 hop' with heq | hmem
  · cases heq; exact hop
  · exact h op' hmem

theorem NonePass.tail {passes : Operator → Bool} {item : Item} {row : List Item}
    (h : NonePass passes (item :: row)) : NonePass passes row :=
  fun op hop => h op (List.mem_cons_of_mem _ hop)

/-- Opening a row passes over every item in front of which nothing passes the test. -/
theorem Focus.firstAfter?_append {passes : Operator → Bool} {before items rest : List Item}
    (h : NonePass passes items) :
    firstAfter? passes before (items ++ rest) =
      firstAfter? passes (items.reverse ++ before) rest := by
  induction items generalizing before with
  | nil => rfl
  | cons item items ih =>
    cases item with
    | value v =>
      rw [List.cons_append, firstAfter?, ih h.tail]
      simp
    | operator op =>
      have hop : passes op = false := h op List.mem_cons_self
      rw [List.cons_append, firstAfter?, hop, if_neg Bool.false_ne_true, ih h.tail]
      simp

/-- A row in which nothing passes the test is not opened. -/
theorem Focus.first?_of_nonePass {passes : Operator → Bool} {row : List Item}
    (h : NonePass passes row) : first? passes row = none := by
  rw [first?, ← List.append_nil row, firstAfter?_append h]
  rfl

/-- **The next operator that passes is where the row is opened**, if nothing before it passes. -/
theorem Focus.first?_of_passes {passes : Operator → Bool} {before after : List Item} {op : Operator}
    (hbefore : NonePass passes before) (hop : passes op = true) :
    first? passes (before.reverse ++ .operator op :: after) = some ⟨before, op, after⟩ := by
  rw [first?, firstAfter?_append hbefore.reverse, firstAfter?, if_pos hop]
  simp

namespace Reduction

variable {passes : Operator → Bool}

/-! ## The pass -/

/-- One pass over what is left of a row, given the stack of what has been passed. -/
def sweepFrom (passes : Operator → Bool) (done : List Item) :
    List Item → Except ReductionError (List Item)
  | [] => .ok done.reverse
  | .value v :: rest => sweepFrom passes (.value v :: done) rest
  | .operator op :: rest =>
    if passes op then
      match op, done, rest with
      | .binary op, .value a :: before, .value b :: after =>
        match op.apply a b with
        | .ok result => sweepFrom passes (.value (.computed result) :: before) after
        | .error cause => .error (.domain cause)
      | .function f, before, .value b :: after =>
        sweepFrom passes (.value (.computed (f.apply b.number)) :: before) after
      | .factorial, .value a :: before, after =>
        match Arithmetic.factorial a.number with
        | .ok result => sweepFrom passes (.value (.computed result) :: before) after
        | .error cause => .error (.domain cause)
      | operator, before, _ => .error (.missingOperand before.length operator)
    else sweepFrom passes (.operator op :: done) rest

/-- One pass over a row. -/
def sweep (passes : Operator → Bool) (items : List Item) : Except ReductionError (List Item) :=
  sweepFrom passes [] items

theorem sweepFrom_operator {done rest : List Item} {op : Operator} (hop : passes op = false) :
    sweepFrom passes done (.operator op :: rest) = sweepFrom passes (.operator op :: done) rest := by
  rw [sweepFrom.eq_def]
  simp only [hop, Bool.false_eq_true, if_false]

/-! ## The pass agrees with the restarts -/

theorem applyAll_of_first?_eq_none {row : List Item} (h : Focus.first? passes row = none) :
    applyAll passes row = .ok row := by
  unfold applyAll
  split
  · rfl
  · next focus hfocus => rw [h] at hfocus; cases hfocus

theorem applyAll_of_first?_eq_some {row : List Item} {focus : Focus}
    (h : Focus.first? passes row = some focus) :
    applyAll passes row = focus.reduce >>= applyAll passes := by
  rw [applyAll]
  split
  · next hfocus => rw [h] at hfocus; cases hfocus
  · next focus' hfocus =>
    rw [h] at hfocus
    cases hfocus
    split
    · next e hreduce => rw [hreduce]; rfl
    · next reduced hreduce =>
      have hbind : (focus.reduce >>= applyAll passes) = applyAll passes reduced := by
        rw [hreduce]; rfl
      exact hbind.symm

theorem applyAll_of_nonePass {row : List Item} (h : NonePass passes row) :
    applyAll passes row = .ok row :=
  applyAll_of_first?_eq_none (Focus.first?_of_nonePass h)

/-- **The next operator that passes is the leftmost of the row.**  `applyAll` opens the row there
    and goes on with what the step leaves. -/
theorem applyAll_of_passes {done rest : List Item} {op : Operator}
    (hdone : NonePass passes done) (hop : passes op = true) :
    applyAll passes (done.reverse ++ .operator op :: rest) =
      Focus.reduce ⟨done, op, rest⟩ >>= applyAll passes :=
  applyAll_of_first?_eq_some (Focus.first?_of_passes hdone hop)

/-- A pass with nothing that passes on its stack continues what `applyAll` does to the whole row.
    By the recursion of the pass; `hdone` is the invariant. -/
theorem applyAll_eq_sweepFrom {done items : List Item} (hdone : NonePass passes done) :
    applyAll passes (done.reverse ++ items) = sweepFrom passes done items := by
  fun_induction sweepFrom passes done items with
  | case1 done => rw [List.append_nil, applyAll_of_nonePass hdone.reverse]
  | case2 done v rest ih => rw [← ih (hdone.cons_value v)]; simp
  | case3 op a before b after result happly hop ih =>
    rw [applyAll_of_passes hdone hop, ← ih (hdone.tail.cons_value _)]
    simp only [Focus.reduce, happly, Focus.withResult, List.reverse_cons, List.append_assoc]
    rfl
  | case4 op a before b after cause happly hop =>
    rw [applyAll_of_passes hdone hop]
    simp only [Focus.reduce, happly]
    rfl
  | case5 f before b after hop ih =>
    rw [applyAll_of_passes hdone hop, ← ih (hdone.cons_value _)]
    simp only [Focus.reduce, Focus.withResult, List.reverse_cons, List.append_assoc]
    rfl
  | case6 a before after result happly hop ih =>
    rw [applyAll_of_passes hdone hop, ← ih (hdone.tail.cons_value _)]
    simp only [Focus.reduce, happly, Focus.withResult, List.reverse_cons, List.append_assoc]
    rfl
  | case7 a before after cause happly hop =>
    rw [applyAll_of_passes hdone hop]
    simp only [Focus.reduce, happly]
    rfl
  | case8 rest operator before hfactorial hbinary hfunction hop =>
    -- no rule fits, so the step is refused with the height of the stack
    rw [applyAll_of_passes hdone hop]
    unfold Focus.reduce
    split
    · next hop' hbefore hafter => exact (hbinary _ _ _ _ _ hop' hbefore hafter).elim
    · next hop' hafter => exact (hfunction _ _ _ hop' hafter).elim
    · next hop' hbefore => exact (hfactorial _ _ hop' hbefore).elim
    · rfl
  | case9 done op rest hop ih =>
    have hfalse : passes op = false := Bool.eq_false_iff.2 hop
    rw [← ih (hdone.cons_operator hfalse)]; simp

theorem applyAll_eq_sweep (passes : Operator → Bool) (items : List Item) :
    applyAll passes items = sweep passes items := by
  have hnil : NonePass passes [] := fun _ hop => nomatch hop
  exact applyAll_eq_sweepFrom hnil

/-! ## The factorials are a pass too

  `applyFactorials` counts the positions of the row as it was written, a pass those of the row as
  it has become.  The two agree in everything but the index of a missing operand. -/

/-- Whether an operator is the factorial. -/
def isFactorial (op : Operator) : Bool := op = .factorial

/-- An error without the position it names. -/
def withoutIndex : ReductionError → ReductionError
  | .missingOperand _ op => .missingOperand 0 op
  | .unreadable text => .unreadable text
  | .domain cause => .domain cause
  | .tooManyResults first second => .tooManyResults first second
  | .nothing => .nothing

theorem mapError_applyFactorialsAfter (position : Nat) (done items : List Item) :
    (applyFactorialsAfter position done items).mapError withoutIndex =
      (sweepFrom isFactorial done items).mapError withoutIndex := by
  fun_induction applyFactorialsAfter position done items with
  | case1 position done => rfl
  | case2 position rest a before result happly ih => rw [ih]; simp [sweepFrom, isFactorial, happly]
  | case3 position rest a before cause happly => simp [sweepFrom, isFactorial, happly]
  | case4 position done rest hdone =>
    cases done with
    | nil => rfl
    | cons item before =>
      cases item with
      | value a => exact (hdone a before rfl).elim
      | operator op => rfl
  | case5 position done item rest hitem ih =>
    -- both put anything but a factorial on the stack
    cases item with
    | value v => rw [ih]; rfl
    | operator op =>
      have hop : isFactorial op = false := decide_eq_false fun heq => hitem (by rw [heq])
      rw [ih, sweepFrom_operator hop]

theorem applyFactorials_eq_ok_iff {items row : List Item} :
    applyFactorials items = .ok row ↔ sweep isFactorial items = .ok row := by
  have h := mapError_applyFactorialsAfter 0 [] items
  rw [applyFactorials, sweep]
  cases hfold : applyFactorialsAfter 0 [] items with
  | ok row' =>
    cases hsweep : sweepFrom isFactorial [] items with
    | ok row'' => rw [hfold, hsweep] at h; cases h; exact Iff.rfl
    | error e => rw [hfold, hsweep] at h; cases h
  | error e =>
    cases hsweep : sweepFrom isFactorial [] items with
    | ok row' => rw [hfold, hsweep] at h; cases h
    | error e' => exact ⟨(nomatch ·), (nomatch ·)⟩

theorem withoutIndex_eq_domain_iff {e : ReductionError} {cause : DomainError} :
    withoutIndex e = .domain cause ↔ e = .domain cause := by
  cases e <;> simp [withoutIndex]

theorem applyFactorials_eq_domain_iff {items : List Item} {cause : DomainError} :
    applyFactorials items = .error (.domain cause) ↔
      sweep isFactorial items = .error (.domain cause) := by
  have h := mapError_applyFactorialsAfter 0 [] items
  rw [applyFactorials, sweep]
  cases hfold : applyFactorialsAfter 0 [] items with
  | ok row =>
    cases hsweep : sweepFrom isFactorial [] items with
    | ok row' => exact ⟨(nomatch ·), (nomatch ·)⟩
    | error e => rw [hfold, hsweep] at h; cases h
  | error e =>
    cases hsweep : sweepFrom isFactorial [] items with
    | ok row' => rw [hfold, hsweep] at h; cases h
    | error e' =>
      rw [hfold, hsweep] at h
      have heq : withoutIndex e = withoutIndex e' := Except.error.inj h
      rw [Except.error.injEq, Except.error.injEq, ← withoutIndex_eq_domain_iff, heq,
        withoutIndex_eq_domain_iff]

/-! ## What a pass leaves behind -/

/-- The operators left by a pass were there before it and do not pass the test. -/
theorem operators_of_sweepFrom {P : Operator → Prop} {done items row : List Item}
    (hdone : ∀ op, .operator op ∈ done → P op ∧ passes op = false)
    (hitems : ∀ op, .operator op ∈ items → P op)
    (h : sweepFrom passes done items = .ok row) :
    ∀ op, .operator op ∈ row → P op ∧ passes op = false := by
  have hvalue : ∀ {before : List Item} (v : Value),
      (∀ op, .operator op ∈ before → P op ∧ passes op = false) →
      ∀ op, .operator op ∈ Item.value v :: before → P op ∧ passes op = false := by
    intro before v hbefore op hop
    rcases List.mem_cons.1 hop with heq | hmem
    · cases heq
    · exact hbefore op hmem
  fun_induction sweepFrom passes done items with
  | case1 done =>
    cases h
    exact fun op hop => hdone op (List.mem_reverse.1 hop)
  | case2 done v rest ih =>
    exact ih (hvalue v hdone) (fun op hop => hitems op (List.mem_cons_of_mem _ hop)) h
  | case3 op a before b after result happly hop ih =>
    exact ih (hvalue _ fun op' hop' => hdone op' (List.mem_cons_of_mem _ hop'))
      (fun op' hop' => hitems op' (List.mem_cons_of_mem _ (List.mem_cons_of_mem _ hop'))) h
  | case4 => cases h
  | case5 f before b after hop ih =>
    exact ih (hvalue _ hdone)
      (fun op' hop' => hitems op' (List.mem_cons_of_mem _ (List.mem_cons_of_mem _ hop'))) h
  | case6 a before after result happly hop ih =>
    exact ih (hvalue _ fun op' hop' => hdone op' (List.mem_cons_of_mem _ hop'))
      (fun op' hop' => hitems op' (List.mem_cons_of_mem _ hop')) h
  | case7 => cases h
  | case8 => cases h
  | case9 done op rest hop ih =>
    refine ih ?_ (fun op' hop' => hitems op' (List.mem_cons_of_mem _ hop')) h
    intro op' hop'
    rcases List.mem_cons.1 hop' with heq | hmem
    · cases heq
      exact ⟨hitems op List.mem_cons_self, Bool.eq_false_iff.2 hop⟩
    · exact hdone op' hmem

theorem operators_of_sweep {P : Operator → Prop} {items row : List Item}
    (hitems : ∀ op, .operator op ∈ items → P op) (h : sweep passes items = .ok row) :
    ∀ op, .operator op ∈ row → P op ∧ passes op = false := by
  refine operators_of_sweepFrom ?_ hitems h
  intro op hop
  cases hop

/-! ## All passes -/

/-- Whether an operator is of the tier. -/
def inTier (tier : Tier) (op : Operator) : Bool := op.tier = tier

theorem inTier_of_tier_eq {op : Operator} {tier : Tier} (h : op.tier = tier) (tier' : Tier) :
    inTier tier' op = decide (tier = tier') := by
  rw [inTier, h]

/-- What all passes, one after the other, leave of a row. -/
def reduced (items : List Item) : Except ReductionError (List Item) :=
  applyFactorials items >>= sweep (inTier .power) >>= sweep (inTier .product)
    >>= sweep (inTier .sum)

theorem reduced_eq_tiers (items : List Item) :
    reduced items = applyFactorials items >>= fun folded =>
      Tier.applied.foldlM (fun items tier => applyTier tier items) folded := by
  have htier : ∀ tier row, applyTier tier row = sweep (inTier tier) row :=
    fun tier row => applyAll_eq_sweep (inTier tier) row
  simp only [reduced, Tier.applied, List.foldlM_cons, List.foldlM_nil, htier, bind_assoc,
    bind_pure]

theorem reduceRow_eq (items : List Item) : reduceRow items = reduced items >>= result := by
  rw [reduced_eq_tiers, bind_assoc]
  rfl

/-- The rows between the passes. -/
theorem reduced_eq_ok {items row : List Item} (h : reduced items = .ok row) :
    ∃ folded powered multiplied, sweep isFactorial items = .ok folded ∧
      sweep (inTier .power) folded = .ok powered ∧
      sweep (inTier .product) powered = .ok multiplied ∧
      sweep (inTier .sum) multiplied = .ok row := by
  obtain ⟨multiplied, h₂, hsum⟩ := Outcome.bind_eq_ok.1 h
  obtain ⟨powered, h₁, hproduct⟩ := Outcome.bind_eq_ok.1 h₂
  obtain ⟨folded, h₀, hpower⟩ := Outcome.bind_eq_ok.1 h₁
  exact ⟨folded, powered, multiplied, applyFactorials_eq_ok_iff.1 h₀, hpower, hproduct, hsum⟩

/-- **No operator is left.**  Every operator is of one of the tiers, and after the pass of a tier
    there is none of it. -/
theorem operator_not_mem_of_reduced {items row : List Item} (h : reduced items = .ok row)
    (op : Operator) : .operator op ∉ row := by
  obtain ⟨folded, powered, multiplied, -, hpower, hproduct, hsum⟩ := reduced_eq_ok h
  intro hop
  -- each pass keeps what the earlier ones left behind and adds that its own tier is gone
  have h₁ := operators_of_sweep (fun _ _ => trivial) hpower
  have h₂ := operators_of_sweep h₁ hproduct
  obtain ⟨⟨⟨-, hnotPower⟩, hnotProduct⟩, hnotSum⟩ := operators_of_sweep h₂ hsum op hop
  have hne : ∀ tier, inTier tier op = false → op.tier ≠ tier :=
    fun tier hfalse => of_decide_eq_false hfalse
  rcases List.mem_cons.1 op.tier_mem_applied with hpower | hrest
  · exact hne _ hnotPower hpower
  · rcases List.mem_cons.1 hrest with hproduct | hrest
    · exact hne _ hnotProduct hproduct
    · exact hne _ hnotSum (List.mem_singleton.1 hrest)

end Reduction

end Reckoner
