/-
  The text that a number is written as.

  A value may carry the text it was written as, and the remainder alone looks at it.  A row in
  which no remainder is taken can therefore forget the texts of all its values: it reduces to the
  same number, or fails with the same error at the same index.

  1. **One operator (`apply_bare`)** — only the remainder sees a text.

  2. **One pass (`sweepFrom_bare`, `applyFactorialsAfter_bare`)** — by the recursion of the pass:
     forgetting the texts before it or behind it is the same.

  3. **All passes (`reduceRow_bare`)** — what goes from one pass to the next is that there is no
     remainder in the row (`Blind`).
-/
import Reckoner.Proofs.Sweep

namespace Reckoner

/-- A value without its text. -/
def Value.bare (v : Value) : Value := .computed v.number

/-- A position without the text of its value. -/
def Item.bare : Item → Item
  | .value v => .value v.bare
  | .operator op => .operator op

/-- No remainder is taken in a row. -/
def WithoutRemainder (row : List Item) : Prop :=
  ∀ op, .operator op ∈ row → op ≠ .binary .remainder

namespace WithoutRemainder

variable {item : Item} {row : List Item}

theorem head {op : Operator} (h : WithoutRemainder (.operator op :: row)) :
    op ≠ .binary .remainder :=
  h op List.mem_cons_self

theorem tail (h : WithoutRemainder (item :: row)) : WithoutRemainder row :=
  fun op hop => h op (List.mem_cons_of_mem _ hop)

end WithoutRemainder

/-! ## One operator -/

/-- Every operator but the remainder has the same value without the texts. -/
theorem BinaryOperator.apply_bare {op : BinaryOperator} (h : op ≠ .remainder) (a b : Value) :
    op.apply a.bare b.bare = op.apply a b := by
  cases op with
  | remainder => exact (h rfl).elim
  | _ => rfl

/-- A row that begins with a value without its text was a row that begins with a value. -/
theorem exists_value_of_map_bare {row row' : List Item} {v : Value}
    (h : row.map Item.bare = .value v :: row') :
    ∃ w rest, row = .value w :: rest := by
  cases row with
  | nil => cases h
  | cons item rest =>
    cases item with
    | value w => exact ⟨w, rest, rfl⟩
    | operator op => cases h

namespace Reduction

variable {passes : Operator → Bool}

/-! ## One pass -/

/-- **Forgetting the texts before a pass or behind it is the same.** -/
theorem sweepFrom_bare (done : List Item) {items : List Item} (h : WithoutRemainder items) :
    sweepFrom passes (done.map Item.bare) (items.map Item.bare) =
      (sweepFrom passes done items).map (List.map Item.bare) := by
  fun_induction sweepFrom passes done items with
  | case1 done => simp [sweepFrom, Except.map]
  | case2 done v rest ih => exact ih h.tail
  | case3 op a before b after result happly hop ih =>
    have hne : op ≠ .remainder := fun heq => h.head (congrArg Operator.binary heq)
    have happly' : op.apply a.bare b.bare = .ok result := by rw [op.apply_bare hne, happly]
    rw [← ih h.tail.tail]
    simp only [List.map_cons, Item.bare, sweepFrom, hop, if_true, happly']
    rfl
  | case4 op a before b after cause happly hop =>
    have hne : op ≠ .remainder := fun heq => h.head (congrArg Operator.binary heq)
    have happly' : op.apply a.bare b.bare = .error cause := by rw [op.apply_bare hne, happly]
    simp only [List.map_cons, Item.bare, sweepFrom, hop, if_true, happly']
    rfl
  | case5 f before b after hop ih =>
    rw [← ih h.tail.tail]
    simp only [List.map_cons, Item.bare, sweepFrom, hop, if_true]
    rfl
  | case6 a before after result happly hop ih =>
    have happly' : Arithmetic.factorial a.bare.number = .ok result := happly
    rw [← ih h.tail]
    simp only [List.map_cons, Item.bare, sweepFrom, hop, if_true, happly']
    rfl
  | case7 a before after cause happly hop =>
    have happly' : Arithmetic.factorial a.bare.number = .error cause := happly
    simp only [List.map_cons, Item.bare, sweepFrom, hop, if_true, happly']
    rfl
  | case8 rest operator before hfactorial hbinary hfunction hop =>
    -- an operand that is missing is missing without the texts too
    rw [List.map_cons, Item.bare, sweepFrom.eq_def]
    simp only [hop, if_true]
    split
    · next hbefore hafter =>
      obtain ⟨a, before', rfl⟩ := exists_value_of_map_bare hbefore
      obtain ⟨b, after', rfl⟩ := exists_value_of_map_bare hafter
      exact (hbinary _ _ _ _ _ rfl rfl rfl).elim
    · next hafter =>
      obtain ⟨b, after', rfl⟩ := exists_value_of_map_bare hafter
      exact (hfunction _ _ _ rfl rfl).elim
    · next hbefore =>
      obtain ⟨a, before', rfl⟩ := exists_value_of_map_bare hbefore
      exact (hfactorial _ _ rfl rfl).elim
    · rw [List.length_map]
      rfl
  | case9 done op rest hop ih =>
    have hfalse : passes op = false := Bool.eq_false_iff.2 hop
    rw [← ih h.tail, List.map_cons, Item.bare, sweepFrom_operator hfalse]
    rfl

/-- The factorials do not see the texts either. -/
theorem applyFactorialsAfter_bare (position : Nat) (passed items : List Item) :
    applyFactorialsAfter position (passed.map Item.bare) (items.map Item.bare) =
      (applyFactorialsAfter position passed items).map (List.map Item.bare) := by
  fun_induction applyFactorialsAfter position passed items with
  | case1 position passed => simp [applyFactorialsAfter, Except.map]
  | case2 position rest a before result happly ih =>
    have happly' : Arithmetic.factorial a.bare.number = .ok result := happly
    rw [← ih]
    simp only [List.map_cons, Item.bare, applyFactorialsAfter, happly']
    rfl
  | case3 position rest a before cause happly =>
    have happly' : Arithmetic.factorial a.bare.number = .error cause := happly
    simp only [List.map_cons, Item.bare, applyFactorialsAfter, happly']
    rfl
  | case4 position passed rest hpassed =>
    rw [List.map_cons, Item.bare, applyFactorialsAfter]
    · rfl
    · intro a before hbefore
      obtain ⟨b, before', rfl⟩ := exists_value_of_map_bare hbefore
      exact hpassed b before' rfl
  | case5 position passed item rest hitem ih =>
    rw [← ih, List.map_cons, applyFactorialsAfter]
    · rfl
    · intro hfactorial
      cases item with
      | value v => cases hfactorial
      | operator op => exact hitem hfactorial

/-! ## All passes -/

/-- A pass does not see the texts in a row without a remainder, and brings no remainder into it. -/
structure Blind (pass : List Item → Except ReductionError (List Item)) : Prop where
  bare : ∀ {items : List Item}, WithoutRemainder items →
    pass (items.map Item.bare) = (pass items).map (List.map Item.bare)
  withoutRemainder : ∀ {items row : List Item}, WithoutRemainder items → pass items = .ok row →
    WithoutRemainder row

theorem blind_sweep (passes : Operator → Bool) : Blind (sweep passes) where
  bare h := sweepFrom_bare [] h
  withoutRemainder h hsweep := fun op hop => (operators_of_sweep h hsweep op hop).1

theorem blind_applyFactorials : Blind applyFactorials where
  bare _ := applyFactorialsAfter_bare 0 [] _
  withoutRemainder h hfold :=
    (blind_sweep isFactorial).withoutRemainder h (applyFactorials_eq_ok_iff.1 hfold)

/-- One pass after another. -/
theorem Blind.andThen {pass next : List Item → Except ReductionError (List Item)}
    (hpass : Blind pass) (hnext : Blind next) : Blind fun items => pass items >>= next where
  bare {items} h := by
    show pass (items.map Item.bare) >>= next = _
    rw [hpass.bare h]
    cases hrow : pass items with
    | error e => rfl
    | ok row => exact hnext.bare (hpass.withoutRemainder h hrow)
  withoutRemainder h hrow := by
    obtain ⟨between, hbetween, hrow⟩ := Outcome.bind_eq_ok.1 hrow
    exact hnext.withoutRemainder (hpass.withoutRemainder h hbetween) hrow

theorem blind_reduced : Blind reduced :=
  ((blind_applyFactorials.andThen (blind_sweep _)).andThen (blind_sweep _)).andThen (blind_sweep _)

/-- What is left of a row counts without its text. -/
theorem result_bare (row : List Item) : result (row.map Item.bare) = result row := by
  have hvalues : (row.map Item.bare).filterMap Item.value? =
      (row.filterMap Item.value?).map Value.bare := by
    rw [List.filterMap_map, List.map_filterMap]
    congr 1
    funext item
    cases item <;> rfl
  rw [result, result, hvalues]
  match row.filterMap Item.value? with
  | [] => rfl
  | [_] => rfl
  | _ :: _ :: _ => rfl

/-- **A row without a remainder reduces to the same number without the texts.** -/
theorem reduceRow_bare {items : List Item} (h : WithoutRemainder items) :
    reduceRow (items.map Item.bare) = reduceRow items := by
  rw [reduceRow_eq, reduceRow_eq, blind_reduced.bare h]
  cases reduced items with
  | error e => rfl
  | ok row => exact result_bare row

end Reduction

end Reckoner
