/-
  Where an operand is missing.

  The report of a missing operand names the operator and an index, counted from zero.  For a
  factorial the index is the place of the operator in the row as it is written.  For the other
  operators it is not: they are counted in the row as it has become, in which everything that has
  been applied in front of the operator is a single item.  So `2 * 3 +` is refused at index 1, where
  the row as it is written has the `*` (`missingOperand_names_product`).

  1. **Lengths (`Spans.length_le`)** — a row has at most as many items as the tokens it stands for,
     because every derivation has a token; and exactly as many if its values are single operands.

  2. **One pass (`Spans.exists_front_of_sweep`)** — the items in front of the refused operator are
     as many as the blocks and operators that the pass makes of the tokens in front of it.

  3. **All passes (`exists_front_of_reduced`)** — which blocks these are depends on the pass that
     refuses the operator: single operands for a factorial, and then powers, products and sums.
-/
import Reckoner.Proofs.Expressions
import Reckoner.Proofs.FactorialsInStep
import Reckoner.Proofs.Refusals

namespace Reckoner

open Reduction

/-! ## Lengths -/

/-- A derivation has a token. -/
theorem Derives.length_pos {category : Category} {ts : List Token} {m : Option Value}
    (h : Derives category ts m) : 0 < ts.length := by
  induction h with
  | number _ | group _ _ | function _ _ => exact Nat.succ_pos _
  | atom _ ih | post _ ih | head _ ih | power _ ih | product _ ih => exact ih
  | factorial _ _ | powers _ _ _ _ _ | products _ _ _ _ _ | sums _ _ _ _ _ =>
    rw [List.length_append, List.length_cons]
    omega

/-- An operand is a single token. -/
theorem Derives.length_atom {ts : List Token} {m : Option Value} (h : Derives .atom ts m) :
    ts.length = 1 := by
  cases h with
  | number _ => rfl
  | group _ => rfl

namespace Spans

variable {Block : List Token → Value → Prop} {ts : List Token} {row : List Item}

/-- A row has at most as many items as there are tokens, if every block has a token. -/
theorem length_le (hblock : ∀ us v, Block us v → 0 < us.length) (h : Spans Block ts row) :
    row.length ≤ ts.length := by
  induction h with
  | nil => exact Nat.le_refl 0
  | value hv _ ih =>
    have hpos := hblock _ _ hv
    rw [List.length_append, List.length_cons]
    omega
  | operator _ ih => exact Nat.succ_le_succ ih

/-- A row has as many items as there are tokens, if every block is a single token. -/
theorem length_eq (hblock : ∀ us v, Block us v → us.length = 1) (h : Spans Block ts row) :
    row.length = ts.length := by
  induction h with
  | nil => rfl
  | value hv _ ih =>
    have hone := hblock _ _ hv
    rw [List.length_append, List.length_cons]
    omega
  | operator _ ih => exact congrArg Nat.succ ih

/-- A row that is opened at an operator opens the tokens it stands for. -/
theorem exists_of_operator {front behind : List Item} {op : Operator}
    (h : Spans Block ts (front ++ .operator op :: behind)) :
    ∃ us us', ts = us ++ .operator op :: us' ∧ Spans Block us front := by
  obtain ⟨us, us', rfl, hfront, hbehind⟩ := h.exists_of_append
  cases hbehind with
  | operator _ => exact ⟨us, _, rfl, hfront⟩

/-! ## One pass -/

/-- **The index counts what the pass makes of the tokens in front of the operator.** -/
theorem exists_front_of_sweep {passes : Operator → Bool} {applies : Operator → Prop}
    {Small Large : List Token → Value → Prop} (hlarge : Extends applies Small Large)
    {items : List Item} (happlies : ∀ op, .operator op ∈ items → passes op = true → applies op)
    (hitems : Spans Small ts items) {index : Nat} {op : Operator}
    (h : Reduction.sweep passes items = .error (.missingOperand index op)) :
    applies op ∧ ∃ front behind row, ts = front ++ .operator op :: behind ∧
      Spans Large front row ∧ row.length = index := by
  obtain ⟨hop, front, behind, row, rfl, hrow, hlength⟩ := Reduction.exists_front_of_sweep h
  have hmem : .operator op ∈ front ++ .operator op :: behind :=
    List.mem_append_right _ List.mem_cons_self
  obtain ⟨us, us', rfl, hfront⟩ := hitems.exists_of_operator
  have happliesFront : ∀ op, .operator op ∈ front → passes op = true → applies op :=
    fun op hmem => happlies op (List.mem_append_left _ hmem)
  exact ⟨happlies op hmem hop, us, us', row, rfl,
    Spans.sweep hlarge happliesFront hfront hrow, hlength⟩

end Spans

/-! ## All passes -/

/-- What a value stands for in a row whose operators are being applied in the tier. -/
def Tier.category : Tier → Category
  | .operand => .atom
  | .power => .power
  | .product => .product
  | .sum => .sum

/-- What a value in front of an operator stands for when the operator is applied.  The factorials
    are counted in the row as it is written. -/
def Operator.frontCategory (op : Operator) : Category :=
  if op = .factorial then .atom else op.tier.category

theorem Operator.frontCategory_of_tier {op : Operator} (hop : op ≠ .factorial) {tier : Tier}
    (h : op.tier = tier) : op.frontCategory = tier.category := by
  rw [frontCategory, if_neg hop, h]

/-- The tokens in front of a refused operator, and what has become of them. -/
theorem exists_front_of_reduced {ts : List Token} {items : List Item}
    (hitems : Spans (Means .atom) ts items) {index : Nat} {op : Operator}
    (h : reduced items = .error (.missingOperand index op)) :
    ∃ front behind row, ts = front ++ .operator op :: behind ∧
      Spans (Means op.frontCategory) front row ∧ row.length = index := by
  have htier : ∀ {tier}, op.tier = tier → op ≠ .factorial →
      Means op.frontCategory = Means tier.category := by
    intro tier hop hne
    rw [Operator.frontCategory_of_tier hne hop]
  rcases Outcome.bind_eq_error.1 h with h | ⟨multiplied, hmultiplied, hsum⟩
  · rcases Outcome.bind_eq_error.1 h with h | ⟨powered, hpowered, hproduct⟩
    · rcases Outcome.bind_eq_error.1 h with hfold | ⟨folded, hfolded, hpower⟩
      · -- the row is still as it was written
        obtain ⟨rfl, front, behind, rfl, rfl⟩ := exists_front_of_applyFactorials hfold
        obtain ⟨us, us', rfl, hfront⟩ := hitems.exists_of_operator
        exact ⟨us, us', front, rfl, hfront, rfl⟩
      · obtain ⟨hposts, hnone⟩ := spans_of_folded hitems hfolded
        obtain ⟨⟨hop, hne⟩, hfront⟩ :=
          hposts.exists_front_of_sweep extends_power (applies_power hnone) hpower
        rw [htier hop hne]
        exact hfront
    · have hpowers := spans_of_powered hitems hpowered
      obtain ⟨hop, hfront⟩ := hpowers.exists_front_of_sweep extends_product applies_tier hproduct
      have hne : op ≠ .factorial := by
        rintro rfl
        cases hop
      rw [htier hop hne]
      exact hfront
  · have hproducts := spans_of_multiplied hitems hmultiplied
    obtain ⟨hop, hfront⟩ := hproducts.exists_front_of_sweep extends_sum applies_tier hsum
    have hne : op ≠ .factorial := by
      rintro rfl
      cases hop
    rw [htier hop hne]
    exact hfront

/-! ## Tokens -/

/-- **A missing operand is reported with what has become of the tokens in front of its operator.**
    In a row whose groups have values, the operator that is named stands behind tokens of which as
    many items are left as the index says.  So the index is no larger than the place of the operator
    in the row as it is written; for a factorial it is that place. -/
theorem missingOperand_counts_front {ts : List Token} (hplain : Token.arePlain ts = true)
    (hgroups : ∀ children, .group children ∈ ts → ∃ x, Token.evaluate children = .ok x)
    {index : Nat} {op : Operator}
    (h : Token.evaluate ts = .error (.missingOperand index op)) :
    ∃ front behind row, ts = front ++ .operator op :: behind ∧
      Spans (Means op.frontCategory) front row ∧ row.length = index ∧
      index ≤ front.length ∧ (op = .factorial → index = front.length) := by
  rcases unreadable_or_spans hplain hgroups with ⟨text, htext⟩ | ⟨items, hitems, heval⟩
  · rw [htext] at h
    cases h
  · rw [heval] at h
    have hreduced := reduced_of_isRefusal h (.missingOperand index op)
    obtain ⟨front, behind, row, rfl, hfront, rfl⟩ := exists_front_of_reduced hitems hreduced
    refine ⟨front, behind, row, rfl, hfront, rfl, ?_, ?_⟩
    · exact hfront.length_le fun us v hv => hv.length_pos
    · rintro rfl
      exact hfront.length_eq fun us v hv => hv.length_atom

/-- The `+` of `2 * 3 +` lacks an operand.  It is reported at index 1, behind the single number
    that has become of `2 * 3`. -/
theorem missingOperand_behind_product :
    let ts : List Token := [.number "2", .operator (.binary .multiply), .number "3",
      .operator (.binary .add)]
    Token.arePlain ts = true ∧
      (∀ children, .group children ∈ ts → ∃ x, Token.evaluate children = .ok x) ∧
      Token.evaluate ts = .error (.missingOperand 1 (.binary .add)) ∧
      ∃ front behind row, ts = front ++ .operator (.binary .add) :: behind ∧
        Spans (Means .sum) front row ∧ row.length = 1 ∧ 1 ≤ front.length := by
  intro ts
  have hplain : Token.arePlain ts = true := by decide
  have hgroups : ∀ children, .group children ∈ ts → ∃ x, Token.evaluate children = .ok x := by
    intro children hmem
    simp [ts] at hmem
  have heval : Token.evaluate ts = .error (.missingOperand 1 (.binary .add)) := by
    decide +kernel
  obtain ⟨front, behind, row, hts, hfront, hlength, hle, -⟩ :=
    missingOperand_counts_front hplain hgroups heval
  rw [show (Operator.binary .add).frontCategory = .sum by decide] at hfront
  exact ⟨hplain, hgroups, heval, front, behind, row, hts, hfront, hlength, hle⟩

/-- At that index the row as it is written has another operator, the `*`. -/
theorem missingOperand_names_product :
    ¬ ∀ (ts : List Token) (index : Nat) (op : Operator),
      (∀ token ∈ ts, (∃ text, token = .number text) ∨ ∃ op, token = .operator op) →
      Token.evaluate ts = .error (.missingOperand index op) → ts[index]? = some (.operator op) := by
  intro hindex
  have hproduct := hindex [.number "2", .operator (.binary .multiply), .number "3",
    .operator (.binary .add)] 1 (.binary .add) (by simp) (by decide +kernel)
  cases hproduct

end Reckoner
