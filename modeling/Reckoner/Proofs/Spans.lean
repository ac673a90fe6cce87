/-
  What a reduced row derives.

  A reduction forgets where its numbers came from.  Here each item of a row is given back the
  stretch of tokens it stands for.

  1. **Spans** — the tokens are the stretches of the items put side by side: an operator stands
     for itself, and a value for a block of tokens that has it as its value.  What counts as a
     block is a parameter, because it grows from pass to pass: first single operands, then
     operands with their factorials, then powers, products and sums.

  2. **One pass (`Spans.sweep`)** — if every rule by which the pass applies an operator makes a
     block of the larger kind out of blocks of the smaller one (`Extends`), the pass takes a row
     that is spanned by the smaller blocks to a row that is spanned by the larger ones.  By the
     recursion of the pass; what has been passed is spanned by larger blocks already, what is
     still to come by smaller ones.

  3. **All passes (`spans_of_reduced`)** — the four passes extend derivations of an atom to those
     of a whole expression.  So every value that is left over is the meaning of an expression.
-/
import Reckoner.Proofs.Grammar
import Reckoner.Proofs.Grouping
import Reckoner.Proofs.Sweep

namespace Reckoner

open Reduction

/-- The tokens are the stretches that the items of the row stand for, side by side. -/
inductive Spans (Block : List Token → Value → Prop) : List Token → List Item → Prop
  | nil : Spans Block [] []
  | value {ts us : List Token} {v : Value} {row : List Item} (h : Block ts v)
      (rest : Spans Block us row) : Spans Block (ts ++ us) (.value v :: row)
  | operator {op : Operator} {us : List Token} {row : List Item} (rest : Spans Block us row) :
      Spans Block (.operator op :: us) (.operator op :: row)

namespace Spans

variable {Block : List Token → Value → Prop} {ts us : List Token} {row row' : List Item}

theorem append (h : Spans Block ts row) (h' : Spans Block us row') :
    Spans Block (ts ++ us) (row ++ row') := by
  induction h with
  | nil => exact h'
  | value hblock rest ih => rw [List.append_assoc]; exact .value hblock ih
  | operator rest ih => exact .operator ih

/-- A span of two rows side by side is cut between them. -/
theorem exists_of_append (h : Spans Block ts (row ++ row')) :
    ∃ us us', ts = us ++ us' ∧ Spans Block us row ∧ Spans Block us' row' := by
  induction row generalizing ts with
  | nil => exact ⟨[], ts, rfl, .nil, h⟩
  | cons item row ih =>
    cases h with
    | value hblock rest =>
      obtain ⟨us, us', rfl, hus, hus'⟩ := ih rest
      exact ⟨_ ++ us, us', (List.append_assoc _ _ _).symm, .value hblock hus, hus'⟩
    | operator rest =>
      obtain ⟨us, us', rfl, hus, hus'⟩ := ih rest
      exact ⟨_ :: us, us', rfl, .operator hus, hus'⟩

theorem single {v : Value} (h : Block ts v) : Spans Block ts [.value v] := by
  rw [← List.append_nil ts]
  exact .value h .nil

theorem block_of_single {v : Value} (h : Spans Block ts [.value v]) : Block ts v := by
  cases h with
  | value hblock rest =>
    cases rest with
    | nil => rw [List.append_nil]; exact hblock

/-- The topmost value of a stack stands for the last stretch. -/
theorem exists_of_top {v : Value} {before : List Item}
    (h : Spans Block ts (Item.value v :: before).reverse) :
    ∃ us us', ts = us ++ us' ∧ Spans Block us before.reverse ∧ Block us' v := by
  rw [List.reverse_cons] at h
  obtain ⟨us, us', rfl, hus, hus'⟩ := h.exists_of_append
  exact ⟨us, us', rfl, hus, hus'.block_of_single⟩

/-- A value is put on top of a stack. -/
theorem push {v : Value} {before : List Item} (h : Spans Block ts before.reverse)
    (hblock : Block us v) : Spans Block (ts ++ us) (Item.value v :: before).reverse := by
  rw [List.reverse_cons]
  exact h.append (single hblock)

end Spans

/-! ## One pass -/

/-- Larger blocks: the smaller ones, and what the operators that are applied make of them. -/
structure Extends (applies : Operator → Prop) (Small Large : List Token → Value → Prop) :
    Prop where
  of_small {ts : List Token} {v : Value} : Small ts v → Large ts v
  binary {op : BinaryOperator} {ts us : List Token} {a b : Value} {result : Float} :
    applies (.binary op) → Large ts a → Small us b → op.apply a b = .ok result →
      Large (ts ++ .operator (.binary op) :: us) (.computed result)
  function {f : UnaryFunction} {us : List Token} {b : Value} :
    applies (.function f) → Small us b → Large (.operator (.function f) :: us) (f.value b)
  factorial {ts : List Token} {a : Value} {result : Float} :
    applies .factorial → Large ts a → Arithmetic.factorial a.number = .ok result →
      Large (ts ++ [.operator .factorial]) (.computed result)

/-- A pass takes spans by smaller blocks to spans by larger ones. -/
theorem Spans.sweepFrom {passes : Operator → Bool} {applies : Operator → Prop}
    {Small Large : List Token → Value → Prop} (hlarge : Extends applies Small Large)
    {done items row : List Item} {before ts : List Token}
    (happlies : ∀ op, .operator op ∈ items → passes op = true → applies op)
    (hdone : Spans Large before done.reverse) (hitems : Spans Small ts items)
    (h : Reduction.sweepFrom passes done items = .ok row) : Spans Large (before ++ ts) row := by
  fun_induction Reduction.sweepFrom passes done items generalizing before ts with
  | case1 done =>
    cases h
    cases hitems with
    | nil => rw [List.append_nil]; exact hdone
  | case2 done v rest ih =>
    cases hitems with
    | value hblock hrest =>
      rw [← List.append_assoc]
      exact ih (fun op hop => happlies op (List.mem_cons_of_mem _ hop))
        (hdone.push (hlarge.of_small hblock)) hrest h
  | case3 op a done b rest result happly hop ih =>
    -- the topmost block, the operator and the next block become one block
    cases hitems with
    | operator hright =>
      cases hright with
      | value hb hrest =>
        obtain ⟨us, us', rfl, hus, ha⟩ := hdone.exists_of_top
        have hblock := hlarge.binary (happlies _ List.mem_cons_self hop) ha hb happly
        have hspan := ih (fun op hop => happlies op (List.mem_cons_of_mem _ (List.mem_cons_of_mem _ hop)))
          (hus.push hblock) hrest h
        simpa using hspan
  | case4 => cases h
  | case5 f done b rest hop ih =>
    cases hitems with
    | operator hright =>
      cases hright with
      | value hb hrest =>
        have hblock := hlarge.function (happlies _ List.mem_cons_self hop) hb
        have hspan := ih (fun op hop => happlies op (List.mem_cons_of_mem _ (List.mem_cons_of_mem _ hop)))
          (hdone.push hblock) hrest h
        simpa using hspan
  | case6 a done rest result happly hop ih =>
    cases hitems with
    | operator hrest =>
      obtain ⟨us, us', rfl, hus, ha⟩ := hdone.exists_of_top
      have hblock := hlarge.factorial (happlies _ List.mem_cons_self hop) ha happly
      have hspan := ih (fun op hop => happlies op (List.mem_cons_of_mem _ hop))
        (hus.push hblock) hrest h
      simpa using hspan
  | case7 => cases h
  | case8 => cases h
  | case9 done op rest hop ih =>
    cases hitems with
    | operator hrest =>
      have hpush : Spans Large (before ++ [.operator op]) (Item.operator op :: done).reverse := by
        rw [List.reverse_cons]
        exact hdone.append (.operator .nil)
      have hspan := ih (fun op hop => happlies op (List.mem_cons_of_mem _ hop)) hpush hrest h
      simpa using hspan

theorem Spans.sweep {passes : Operator → Bool} {applies : Operator → Prop}
    {Small Large : List Token → Value → Prop} (hlarge : Extends applies Small Large)
    {items row : List Item} {ts : List Token}
    (happlies : ∀ op, .operator op ∈ items → passes op = true → applies op)
    (hitems : Spans Small ts items) (h : Reduction.sweep passes items = .ok row) :
    Spans Large ts row := by
  have hnil : Spans Large [] (List.reverse []) := .nil
  exact Spans.sweepFrom hlarge happlies hnil hitems h

/-! ## The four passes -/

/-- The tokens are derived from the category and have the value as their meaning. -/
def Means (category : Category) (ts : List Token) (v : Value) : Prop :=
  Derives category ts (some v)

theorem BinaryOperator.value?_eq_some {op : BinaryOperator} {a b : Value} {result : Float}
    (h : op.apply a b = .ok result) : op.value? a b = some (.computed result) := by
  rw [value?, h]
  rfl

theorem extends_post : Extends (· = .factorial) (Means .atom) (Means .post) where
  of_small h := .atom h
  binary hop := nomatch hop
  function hop := nomatch hop
  factorial := by
    intro ts a result _ ha happly
    have hblock := Derives.factorial ha
    rw [Option.bind_some, Value.factorial?, happly] at hblock
    exact hblock

theorem extends_power :
    Extends (fun op => op.tier = .power ∧ op ≠ .factorial) (Means .post) (Means .power) where
  of_small h := .head (.post h)
  binary := by
    intro op ts us a b result hop ha hb happly
    have hblock := Derives.powers ha ((BinaryOperator.mem_powers_iff op).2 hop.1) hb
    rw [Option.bind_some, Option.bind_some, BinaryOperator.value?_eq_some happly] at hblock
    exact hblock
  function _ hb := .head (.function hb)
  factorial hop := (hop.2 rfl).elim

theorem extends_product :
    Extends (fun op => op.tier = .product) (Means .power) (Means .product) where
  of_small h := .power h
  binary := by
    intro op ts us a b result hop ha hb happly
    have hblock := Derives.products ha ((BinaryOperator.mem_products_iff op).2 hop) hb
    rw [Option.bind_some, Option.bind_some, BinaryOperator.value?_eq_some happly] at hblock
    exact hblock
  function hop := nomatch hop
  factorial hop := nomatch hop

theorem extends_sum :
    Extends (fun op => op.tier = .sum) (Means .product) (Means .sum) where
  of_small h := .product h
  binary := by
    intro op ts us a b result hop ha hb happly
    have hblock := Derives.sums ha ((BinaryOperator.mem_sums_iff op).2 hop) hb
    rw [Option.bind_some, Option.bind_some, BinaryOperator.value?_eq_some happly] at hblock
    exact hblock
  function hop := nomatch hop
  factorial hop := nomatch hop

/-- When the factorials are applied, the row stands for operands with their factorials, and no
    factorial is left. -/
theorem spans_of_folded {ts : List Token} {items folded : List Item}
    (hitems : Spans (Means .atom) ts items) (h : applyFactorials items = .ok folded) :
    Spans (Means .post) ts folded ∧ ∀ op, .operator op ∈ folded → op ≠ .factorial := by
  have hsweep := applyFactorials_eq_ok_iff.1 h
  have hnone := operators_of_sweep (fun _ _ => trivial) hsweep
  exact ⟨Spans.sweep extends_post (fun _ _ hop => of_decide_eq_true hop) hitems hsweep,
    fun op hmem => of_decide_eq_false (hnone op hmem).2⟩

/-- The factorial is of the tier of powers, but when the powers are applied none is left. -/
theorem applies_power {folded : List Item} (hnone : ∀ op, .operator op ∈ folded → op ≠ .factorial)
    (op : Operator) (hmem : .operator op ∈ folded) (hop : inTier .power op = true) :
    op.tier = .power ∧ op ≠ .factorial :=
  ⟨of_decide_eq_true hop, hnone op hmem⟩

/-- An operator that is applied with its tier is of that tier. -/
theorem applies_tier {items : List Item} {tier : Tier} (op : Operator)
    (_ : .operator op ∈ items) (hop : inTier tier op = true) : op.tier = tier :=
  of_decide_eq_true hop

/-- When the powers are applied, the row stands for powers. -/
theorem spans_of_powered {ts : List Token} {items powered : List Item}
    (hitems : Spans (Means .atom) ts items)
    (h : (applyFactorials items >>= sweep (inTier .power)) = .ok powered) :
    Spans (Means .power) ts powered := by
  obtain ⟨folded, hfold, hpower⟩ := Outcome.bind_eq_ok.1 h
  obtain ⟨hposts, hnone⟩ := spans_of_folded hitems hfold
  exact Spans.sweep extends_power (applies_power hnone) hposts hpower

/-- When the products are applied, the row stands for products. -/
theorem spans_of_multiplied {ts : List Token} {items multiplied : List Item}
    (hitems : Spans (Means .atom) ts items)
    (h : (applyFactorials items >>= sweep (inTier .power) >>= sweep (inTier .product)) =
      .ok multiplied) : Spans (Means .product) ts multiplied := by
  obtain ⟨powered, hpowered, hproduct⟩ := Outcome.bind_eq_ok.1 h
  exact Spans.sweep extends_product applies_tier (spans_of_powered hitems hpowered) hproduct

/-- **Whatever is left after all passes is the meaning of an expression**, and the expressions
    are the tokens. -/
theorem spans_of_reduced {ts : List Token} {items row : List Item}
    (hitems : Spans (Means .atom) ts items) (h : reduced items = .ok row) :
    Spans (Means .sum) ts row := by
  obtain ⟨multiplied, hmultiplied, hsum⟩ := Outcome.bind_eq_ok.1 h
  exact Spans.sweep extends_sum applies_tier (spans_of_multiplied hitems hmultiplied) hsum

end Reckoner
