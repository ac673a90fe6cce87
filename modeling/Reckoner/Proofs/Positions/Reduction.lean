/-
  Reducing a row by positions.

  An operator is found by its position.  Its operands are the elements one position before and one
  position behind it, as its arity says; the result takes the place of the stretch from the first
  operand to the last, and where that stretch begins and how long it is are computed from the
  position of the operator.

  1. **One step (`reduceAt_row`)** — at the position of an operator nothing goes wrong, and the
     step is `Focus.reduce`: the operands that are found suit the operator, and the stretch begins
     in the row because an operand on the left was found there.

  2. **The leftmost operator (`reduceAll_eq`)** — the position that is searched for is where the
     row is opened (`findIdx?_eq`), and a step makes the row shorter.  A tier is reduced in this
     way (`reduceTier_eq`).

  3. **The result (`singleResult_eq`)** — no operator is left to be mistaken for a number
     (`operator_not_mem_of_reduced`).
-/
import Reckoner.Proofs.Positions.Access
import Reckoner.Proofs.Sweep

namespace Reckoner.Positions

/-! ## One step -/

/-- The outcome of arithmetic, as an outcome of work by positions. -/
def arithmetic (outcome : Except DomainError Float) : Except Stop Float :=
  outcome.mapError fun cause => .refusal (.domain cause)

/-- Applies an operator to the operands it is given. -/
def applyTo : Operator → Operands → Except Stop Float
  | .binary op, .around a b => arithmetic (op.apply a b)
  | .function f, .next b => .ok (f.apply b.number)
  | .factorial, .previous a => arithmetic (Arithmetic.factorial a.number)
  | op, operands => .error (.fault (.operands op operands))

/-- The value one position before another. -/
def valueBefore? (items : List Item) : Nat → Option Value
  | 0 => none
  | index + 1 => items[index]?.bind Item.value?

/-- The value one position behind another. -/
def valueBehind? (items : List Item) (index : Nat) : Option Value :=
  items[index + 1]?.bind Item.value?

/-- The operands that an arity takes, if they are there. -/
def operands? (arity : Arity) (left right : Option Value) : Option Operands :=
  match arity with
  | .both => left.bind fun a => right.map fun b => .around a b
  | .left => left.map .previous
  | .right => right.map .next
  | .none => none

/-- Where the stretch of an operator and its operands begins. -/
def startOf (index : Nat) (arity : Arity) : Except Stop Nat :=
  if arity.takesLeft then difference index 1 else .ok index

/-- Puts a result in the place of an operator and the operands that its arity takes. -/
def replaceAt (items : List Item) (index : Nat) (arity : Arity) (result : Float) :
    Except Stop (List Item) := do
  let start ← startOf index arity
  let upToOperator ← difference (index + 1) start
  let consumed := upToOperator + arity.takesRight.toNat
  -- the length of the new row, which is reserved before the row is built
  let _length ← difference (items.length + 1) consumed
  return items.take start ++ .value (.computed result) :: (items.drop start).drop consumed

/-- Applies the operator at a position. -/
def reduceAt (items : List Item) (index : Nat) : Except Stop (List Item) := do
  match ← elementAt items index with
  | .value v => throw (.fault (.value v))
  | .operator op =>
    match operands? op.arity (valueBefore? items index) (valueBehind? items index) with
    | none => throw (.refusal (.missingOperand index op))
    | some operands =>
      let result ← applyTo op operands
      replaceAt items index op.arity result

theorem valueBefore?_row (before rest : List Item) :
    valueBefore? (before.reverse ++ rest) before.length = before.head?.bind Item.value? := by
  cases before with
  | nil => rfl
  | cons item before =>
    have hitem : ((item :: before).reverse ++ rest)[before.length]? = some item := by
      rw [List.reverse_cons, List.append_assoc, List.getElem?_append_right (by simp),
        List.length_reverse, Nat.sub_self]
      rfl
    rw [List.length_cons, valueBefore?, hitem]
    rfl

theorem valueBehind?_row (before : List Item) (item : Item) (after : List Item) :
    valueBehind? (before.reverse ++ item :: after) before.length =
      after.head?.bind Item.value? := by
  have hindex : before.length + 1 - before.reverse.length = 1 := by
    rw [List.length_reverse]
    omega
  rw [valueBehind?, List.getElem?_append_right (by rw [List.length_reverse]; omega), hindex,
    List.getElem?_cons_succ, List.head?_eq_getElem?]

/-- The result takes the place of the middle part of a row, if that is the operator with its
    operands. -/
theorem replaceAt_eq (front middle back : List Item) {items : List Item} {index : Nat}
    {arity : Arity} (hitems : items = front ++ middle ++ back)
    (hindex : index = front.length + arity.takesLeft.toNat)
    (hmiddle : middle.length = arity.takesLeft.toNat + 1 + arity.takesRight.toNat)
    (result : Float) :
    replaceAt items index arity result =
      .ok (front ++ .value (.computed result) :: back) := by
  subst hitems hindex
  have htake : (front ++ middle ++ back).take front.length = front := by
    rw [List.append_assoc, List.take_left]
  have hdrop : ((front ++ middle ++ back).drop front.length).drop middle.length = back := by
    rw [List.append_assoc, List.drop_left, List.drop_left]
  have hlength : middle.length ≤ (front ++ middle ++ back).length + 1 := by
    simp only [List.length_append]
    omega
  -- the stretch begins at the operand on the left, or at the operator itself
  have hstart : startOf (front.length + arity.takesLeft.toNat) arity = .ok front.length := by
    rw [startOf]
    cases arity.takesLeft with
    | true => exact difference_of_le (Nat.le_add_left 1 front.length)
    | false => rfl
  have hreach : difference (front.length + arity.takesLeft.toNat + 1) front.length =
      .ok (arity.takesLeft.toNat + 1) := by
    rw [difference_of_le (by omega)]
    congr 1
    omega
  unfold replaceAt
  rw [hstart]
  show (difference _ front.length >>= _) = _
  rw [hreach]
  show (difference _ (_ + 1 + _) >>= _) = _
  rw [← hmiddle, difference_of_le hlength]
  show Except.ok (_ ++ _ :: _) = _
  rw [htake, hdrop]

/-! ## The step is the step of a reduction -/

/-- The outcome of a reduction, as an outcome of work by positions. -/
def answer {α : Type} (outcome : Except ReductionError α) : Except Stop α :=
  outcome.mapError .refusal

/-- At an operator, the operands are looked for among its neighbours. -/
theorem reduceAt_operator (before after : List Item) (op : Operator) :
    reduceAt (before.reverse ++ .operator op :: after) before.length =
      match operands? op.arity (before.head?.bind Item.value?) (after.head?.bind Item.value?) with
      | none => .error (.refusal (.missingOperand before.length op))
      | some operands => applyTo op operands >>=
          replaceAt (before.reverse ++ .operator op :: after) before.length op.arity := by
  have helement : elementAt (before.reverse ++ .operator op :: after) before.length =
      .ok (.operator op) := by
    rw [← List.length_reverse]
    exact elementAt_append before.reverse (.operator op) after
  rw [reduceAt, helement, ← valueBefore?_row before (.operator op :: after),
    ← valueBehind?_row before (.operator op) after]
  rfl

/-- **A step by positions is the step of a reduction.**  The cases are those of `Focus.reduce`. -/
theorem reduceAt_row (focus : Focus) :
    reduceAt focus.row focus.before.length = answer focus.reduce := by
  obtain ⟨before, operator, after⟩ := focus
  show reduceAt (before.reverse ++ .operator operator :: after) before.length = _
  rw [reduceAt_operator]
  cases operator with
  | binary op =>
    rcases before with _ | ⟨a | _, before⟩
    · rfl
    · rcases after with _ | ⟨b | _, after⟩
      · rfl
      · show (arithmetic (op.apply a b) >>= _) = _
        cases happly : op.apply a b with
        | ok result =>
          have hreduce : Focus.reduce ⟨.value a :: before, .binary op, .value b :: after⟩ =
              .ok (Focus.withResult before result after) := by
            simp only [Focus.reduce, happly]
          rw [hreduce]
          show replaceAt _ (before.length + 1) .both result = .ok (before.reverse ++ _)
          refine replaceAt_eq before.reverse [.value a, .operator (.binary op), .value b] after
            ?_ ?_ ?_ result
          · simp
          · rw [List.length_reverse]; rfl
          · rfl
        | error cause => simp only [Focus.reduce, happly]; rfl
      · rfl
    · rfl
  | function f =>
    rcases after with _ | ⟨b | _, after⟩
    · rfl
    · show replaceAt _ before.length .right (f.apply b.number) = .ok (before.reverse ++ _)
      refine replaceAt_eq before.reverse [.operator (.function f), .value b] after ?_ ?_ ?_ _
      · simp
      · rw [List.length_reverse]; rfl
      · rfl
    · rfl
  | factorial =>
    rcases before with _ | ⟨a | _, before⟩
    · rfl
    · show (arithmetic (Arithmetic.factorial a.number) >>= _) = _
      cases happly : Arithmetic.factorial a.number with
      | ok result =>
        have hreduce : Focus.reduce ⟨.value a :: before, .factorial, after⟩ =
            .ok (Focus.withResult before result after) := by
          simp only [Focus.reduce, happly]
        rw [hreduce]
        show replaceAt _ (before.length + 1) .left result = .ok (before.reverse ++ _)
        refine replaceAt_eq before.reverse [.value a, .operator .factorial] after ?_ ?_ ?_ result
        · simp
        · rw [List.length_reverse]; rfl
        · rfl
      | error cause => simp only [Focus.reduce, happly]; rfl
    · rfl

/-! ## The leftmost operator -/

variable {passes : Operator → Bool} {items reduced : List Item} {index : Nat}

/-- Whether an item is an operator that passes the test. -/
def isOperator (passes : Operator → Bool) : Item → Bool
  | .value _ => false
  | .operator op => passes op

/-- The position that is searched for is where a row is opened. -/
theorem findIdx?_eq (passes : Operator → Bool) (items : List Item) :
    items.findIdx? (isOperator passes) =
      (Focus.first? passes items).map fun focus => focus.before.length := by
  -- what has been passed counts for the position
  have hafter : ∀ items before : List Item,
      (items.findIdx? (isOperator passes)).map (· + before.length) =
        (Focus.firstAfter? passes before items).map fun focus => focus.before.length := by
    intro items before
    fun_induction Focus.firstAfter? passes before items with
    | case1 before => rfl
    | case2 before v rest ih =>
      rw [← ih, List.findIdx?_cons, isOperator, if_neg Bool.false_ne_true, Option.map_map]
      congr 1
      funext index
      show index + 1 + before.length = index + (before.length + 1)
      omega
    | case3 before op rest hop =>
      rw [List.findIdx?_cons, isOperator, if_pos hop]
      exact congrArg some (Nat.zero_add before.length)
    | case4 before op rest hop ih =>
      rw [← ih, List.findIdx?_cons, isOperator, if_neg hop, Option.map_map]
      congr 1
      funext index
      show index + 1 + before.length = index + (before.length + 1)
      omega
  -- at the front of the row nothing has been passed
  have hfront := hafter items []
  rw [Focus.first?, ← hfront]
  exact Option.map_id'.symm

/-- At the position that is searched for, the step is that of the opened row. -/
theorem exists_focus (h : items.findIdx? (isOperator passes) = some index) :
    ∃ focus, Focus.first? passes items = some focus ∧
      reduceAt items index = answer focus.reduce := by
  rw [findIdx?_eq, Option.map_eq_some_iff] at h
  obtain ⟨focus, hfocus, rfl⟩ := h
  refine ⟨focus, hfocus, ?_⟩
  rw [← reduceAt_row, Focus.row_first? hfocus]

theorem answer_eq_ok {α : Type} {outcome : Except ReductionError α} {a : α}
    (h : answer outcome = .ok a) : outcome = .ok a := by
  cases outcome with
  | ok a' => cases h; rfl
  | error e => cases h

theorem length_lt_of_leftmost (hindex : items.findIdx? (isOperator passes) = some index)
    (hreduce : reduceAt items index = .ok reduced) : reduced.length < items.length := by
  obtain ⟨focus, hfocus, hstep⟩ := exists_focus hindex
  rw [hstep] at hreduce
  have hlength := Focus.length_reduce_lt (answer_eq_ok hreduce)
  rwa [Focus.row_first? hfocus] at hlength

/-- Applies the leftmost operator that passes the test until the row holds none. -/
def reduceAll (passes : Operator → Bool) (items : List Item) : Except Stop (List Item) :=
  match hindex : items.findIdx? (isOperator passes) with
  | none => .ok items
  | some index =>
    match hreduce : reduceAt items index with
    | .error stop => .error stop
    | .ok reduced =>
      have : reduced.length < items.length := length_lt_of_leftmost hindex hreduce
      reduceAll passes reduced
termination_by items.length

theorem reduceAll_of_none (h : items.findIdx? (isOperator passes) = none) :
    reduceAll passes items = .ok items := by
  rw [reduceAll]
  split
  · rfl
  · next index hindex => rw [h] at hindex; cases hindex

theorem reduceAll_of_some (h : items.findIdx? (isOperator passes) = some index) :
    reduceAll passes items = reduceAt items index >>= reduceAll passes := by
  rw [reduceAll]
  split
  · next hindex => rw [h] at hindex; cases hindex
  · next index' hindex =>
    rw [h] at hindex
    cases hindex
    split
    · next stop hreduce => rw [hreduce]; rfl
    · next reduced hreduce =>
      have hbind : (reduceAt items index >>= reduceAll passes) = reduceAll passes reduced := by
        rw [hreduce]; rfl
      exact hbind.symm

/-- **Reducing by positions is reducing.**  By the recursion of the reduction. -/
theorem reduceAll_eq (passes : Operator → Bool) (items : List Item) :
    reduceAll passes items = answer (Reduction.applyAll passes items) := by
  fun_induction Reduction.applyAll passes items with
  | case1 items hfocus =>
    have hindex : items.findIdx? (isOperator passes) = none := by rw [findIdx?_eq, hfocus]; rfl
    exact reduceAll_of_none hindex
  | case2 items focus hfocus e hreduce =>
    have hindex : items.findIdx? (isOperator passes) = some focus.before.length := by
      rw [findIdx?_eq, hfocus]; rfl
    rw [reduceAll_of_some hindex, ← Focus.row_first? hfocus, reduceAt_row, hreduce]
    rfl
  | case3 items focus hfocus reduced hreduce _ ih =>
    have hindex : items.findIdx? (isOperator passes) = some focus.before.length := by
      rw [findIdx?_eq, hfocus]; rfl
    rw [reduceAll_of_some hindex, ← Focus.row_first? hfocus, reduceAt_row, hreduce]
    exact ih

/-! ## A tier -/

/-- Whether an item is an operator of the tier. -/
def isOfTier (tier : Tier) : Item → Bool
  | .value _ => false
  | .operator op => op.tier = tier

theorem isOfTier_eq (tier : Tier) : isOfTier tier = isOperator (·.tier = tier) := by
  funext item
  cases item with
  | value v => rfl
  | operator op => rfl

theorem length_reduceAt_lt {tier : Tier} (hindex : items.findIdx? (isOfTier tier) = some index)
    (hreduce : reduceAt items index = .ok reduced) : reduced.length < items.length := by
  rw [isOfTier_eq] at hindex
  exact length_lt_of_leftmost hindex hreduce

/-- Applies the operators of a tier, the leftmost first, until the row holds none. -/
def reduceTier (tier : Tier) (items : List Item) : Except Stop (List Item) :=
  match hindex : items.findIdx? (isOfTier tier) with
  | none => .ok items
  | some index =>
    match hreduce : reduceAt items index with
    | .error stop => .error stop
    | .ok reduced =>
      have : reduced.length < items.length := length_reduceAt_lt hindex hreduce
      reduceTier tier reduced
termination_by items.length

/-- A tier is reduced like the operators that pass any other test. -/
theorem reduceTier_eq_reduceAll (tier : Tier) (items : List Item) :
    reduceTier tier items = reduceAll (·.tier = tier) items := by
  fun_induction reduceTier tier items with
  | case1 items hindex =>
    rw [isOfTier_eq] at hindex
    rw [reduceAll_of_none hindex]
  | case2 items index hindex stop hreduce =>
    rw [isOfTier_eq] at hindex
    rw [reduceAll_of_some hindex, hreduce]
    rfl
  | case3 items index hindex reduced hreduce _ ih =>
    rw [isOfTier_eq] at hindex
    rw [reduceAll_of_some hindex, hreduce]
    exact ih

/-- A tier by positions is the tier of a reduction. -/
theorem reduceTier_eq (tier : Tier) (items : List Item) :
    reduceTier tier items = answer (Reduction.applyTier tier items) := by
  rw [reduceTier_eq_reduceAll, reduceAll_eq]
  rfl

/-! ## The factorials -/

/-- Applies the factorials of a row, given the position reached and what has been kept, the
    latest first. -/
def foldFrom (index : Nat) (kept : List Item) : List Item → Except Stop (List Item)
  | [] => .ok kept.reverse
  | item :: rest =>
    if item = .operator .factorial then
      match kept with
      | .value operand :: kept => do
        let result ← applyTo .factorial (.previous operand)
        foldFrom (index + 1) (.value (.computed result) :: kept) rest
      | _ => .error (.refusal (.missingOperand index .factorial))
    else foldFrom (index + 1) (item :: kept) rest

theorem foldFrom_eq (index : Nat) (kept items : List Item) :
    foldFrom index kept items = answer (Reduction.applyFactorialsAfter index kept items) := by
  fun_induction Reduction.applyFactorialsAfter index kept items with
  | case1 index kept => rfl
  | case2 index rest a kept result happly ih =>
    rw [foldFrom, if_pos rfl, ← ih]
    show (arithmetic (Arithmetic.factorial a.number) >>= _) = _
    rw [happly]
    rfl
  | case3 index rest a kept cause happly =>
    rw [foldFrom, if_pos rfl]
    show (arithmetic (Arithmetic.factorial a.number) >>= _) = _
    rw [happly]
    rfl
  | case4 index kept rest hkept =>
    rw [foldFrom, if_pos rfl]
    · rfl
    · exact hkept
  | case5 index kept item rest hitem ih =>
    unfold foldFrom
    rw [if_neg hitem, ih]

/-! ## The result -/

/-- The number of an item that is a result. -/
def numberOf : Item → Except Stop Float
  | .value v => .ok v.number
  | .operator op => .error (.fault (.operator op))

/-- The number that is left, if it is the only one.  Two numbers are enough to tell. -/
def singleResult (items : List Item) : Except Stop Float := do
  match ← (items.take 2).mapM numberOf with
  | [] => throw (.refusal .nothing)
  | [x] => return x
  | x :: y :: _ => throw (.refusal (.tooManyResults x y))

theorem singleResult_eq {items : List Item} (h : ∀ op, .operator op ∉ items) :
    singleResult items = answer (Reduction.result items) := by
  match items with
  | [] => rfl
  | .operator op :: _ => exact (h op List.mem_cons_self).elim
  | [.value v] => rfl
  | .value v :: .operator op :: _ =>
    exact (h op (List.mem_cons_of_mem _ List.mem_cons_self)).elim
  | .value v :: .value w :: _ => rfl

/-! ## A whole row -/

/-- The value of a row. -/
def reduceRow (items : List Item) : Except Stop Float := do
  let folded ← foldFrom 0 [] items
  let reduced ← Tier.applied.foldlM (fun items tier => reduceTier tier items) folded
  singleResult reduced

theorem answer_bind {α β : Type} (outcome : Except ReductionError α)
    (next : α → Except ReductionError β) :
    answer (outcome >>= next) = answer outcome >>= fun a => answer (next a) := by
  cases outcome with
  | ok a => rfl
  | error e => rfl

theorem foldlM_answer {α β : Type} (step : α → β → Except ReductionError α) (bs : List β)
    (a : α) :
    bs.foldlM (fun a b => answer (step a b)) a = answer (bs.foldlM step a) := by
  induction bs generalizing a with
  | nil => rfl
  | cons b bs ih =>
    rw [List.foldlM_cons, List.foldlM_cons, answer_bind]
    simp only [ih]

/-- **A row is reduced by positions without a mistake**, to the value it has. -/
theorem reduceRow_eq (items : List Item) :
    reduceRow items = answer (Reduction.reduceRow items) := by
  have hreduced : (foldFrom 0 [] items >>= fun folded =>
      Tier.applied.foldlM (fun items tier => reduceTier tier items) folded) =
        answer (Reduction.reduced items) := by
    simp only [foldFrom_eq, reduceTier_eq, foldlM_answer, Reduction.reduced_eq_tiers, answer_bind]
    rfl
  rw [reduceRow, ← bind_assoc, hreduced, Reduction.reduceRow_eq, answer_bind]
  cases hrow : Reduction.reduced items with
  | error e => rfl
  | ok row => exact singleResult_eq (Reduction.operator_not_mem_of_reduced hrow)

end Reckoner.Positions
