/-
  What the passes make of a derivation.

  A row is reduced as a whole: the factorials of all of it, then the powers of all of it, and so
  on.  A derivation is about one stretch of the row.  The two meet in blocks.

  1. **Blocks (`Becomes`)** — a stretch that one pass turns into the same thing wherever it
     stands, or in which the pass is refused wherever it stands.  The statement speaks about any
     stack before the block and any rest behind it; this is what lets blocks be put side by side.

  2. **Several passes (`Settles`)** — tokens that resolve to a row which the passes, one after
     the other, turn into a given row.  The passes are listed with the latest first, so that a
     chain of one tier is the same passes as its operands and one more.

  3. **The crux (`Derives.settles`)** — a derivation settles, under the passes of its category,
     to the single value that is its meaning; it is refused when it has none.  By induction on the
     derivation, with one rule for blocks for each rule of the grammar.
-/
import Reckoner.Proofs.Grammar
import Reckoner.Proofs.Grouping
import Reckoner.Proofs.Sweep

namespace Reckoner

open Reduction

/-! ## Blocks under one pass -/

/-- Wherever the block stands, the pass turns it into the row, or is refused inside it. -/
def Becomes (passes : Operator → Bool) (block : List Item) : Option (List Item) → Prop
  | some row => ∀ done rest,
      sweepFrom passes done (block ++ rest) = sweepFrom passes (row.reverse ++ done) rest
  | none => ∃ cause, ∀ done rest,
      sweepFrom passes done (block ++ rest) = .error (.domain cause)

/-- A value as a row of its own. -/
def Value.alone (v : Value) : List Item := [.value v]

/-- Two rows side by side, if both are there. -/
def sideBySide (m n : Option (List Item)) : Option (List Item) :=
  m.bind fun row => n.map (row ++ ·)

theorem sideBySide_none (m : Option (List Item)) : sideBySide m none = none := by
  cases m <;> rfl

namespace Becomes

variable {passes : Operator → Bool} {block : List Item}

theorem value (v : Value) : Becomes passes v.alone (some v.alone) :=
  fun _ _ => rfl

theorem operator {op : Operator} (hop : passes op = false) :
    Becomes passes [.operator op] (some [.operator op]) :=
  fun _ _ => sweepFrom_operator hop

/-- Blocks side by side do not meet. -/
theorem append {block' : List Item} {m n : Option (List Item)} (h : Becomes passes block m)
    (h' : Becomes passes block' n) : Becomes passes (block ++ block') (sideBySide m n) := by
  cases m with
  | none =>
    obtain ⟨cause, hcause⟩ := h
    exact ⟨cause, fun done rest => by rw [List.append_assoc, hcause]⟩
  | some row =>
    cases n with
    | none =>
      obtain ⟨cause, hcause⟩ := h'
      exact ⟨cause, fun done rest => by rw [List.append_assoc, h, hcause]⟩
    | some row' =>
      intro done rest
      rw [List.append_assoc, h, h', List.reverse_append, List.append_assoc]

/-- A block that becomes a value, and behind it what the pass does to that value. -/
theorem operate {m : Option Value} (h : Becomes passes block (m.map Value.alone))
    {behind : List Item} {g : Value → Except DomainError Float}
    (hok : ∀ {a result}, g a = .ok result → ∀ done rest,
      sweepFrom passes (.value a :: done) (behind ++ rest) =
        sweepFrom passes (.value (.computed result) :: done) rest)
    (herror : ∀ {a cause}, g a = .error cause → ∀ done rest,
      sweepFrom passes (.value a :: done) (behind ++ rest) = .error (.domain cause)) :
    Becomes passes (block ++ behind)
      ((m.bind fun a => (g a).toOption.map .computed).map Value.alone) := by
  cases m with
  | none =>
    obtain ⟨cause, hcause⟩ := h
    exact ⟨cause, fun done rest => by rw [List.append_assoc, hcause]⟩
  | some a =>
    -- the block leaves its value on top of whatever the stack holds
    have hblock : ∀ done rest, sweepFrom passes done (block ++ behind ++ rest) =
        sweepFrom passes (.value a :: done) (behind ++ rest) := by
      intro done rest
      rw [List.append_assoc, h]
      rfl
    rw [Option.bind_some]
    cases hresult : g a with
    | ok result => exact fun done rest => (hblock done rest).trans (hok hresult done rest)
    | error cause =>
      exact ⟨cause, fun done rest => (hblock done rest).trans (herror hresult done rest)⟩

/-- A value, an operator of the pass and a second value. -/
theorem binary {op : BinaryOperator} (hop : passes (.binary op) = true) {m : Option Value}
    (h : Becomes passes block (m.map Value.alone)) (b : Value) :
    Becomes passes (block ++ [.operator (.binary op), .value b])
      ((m.bind fun a => op.value? a b).map Value.alone) := by
  refine h.operate ?_ ?_
  · intro a result happly done rest
    simp only [List.cons_append, List.nil_append, sweepFrom, hop, happly, if_true]
  · intro a cause happly done rest
    simp only [List.cons_append, List.nil_append, sweepFrom, hop, happly, if_true]

/-- A value and the factorial, when it belongs to the pass. -/
theorem factorial (hop : passes .factorial = true) {m : Option Value}
    (h : Becomes passes block (m.map Value.alone)) :
    Becomes passes (block ++ [.operator .factorial])
      ((m.bind Value.factorial?).map Value.alone) := by
  refine h.operate ?_ ?_
  · intro a result happly done rest
    simp only [List.cons_append, List.nil_append, sweepFrom, hop, happly, if_true]
  · intro a cause happly done rest
    simp only [List.cons_append, List.nil_append, sweepFrom, hop, happly, if_true]

/-- A function of the pass and a value. -/
theorem function {f : UnaryFunction} (hf : passes (.function f) = true) (b : Value) :
    Becomes passes [.operator (.function f), .value b] (some (f.value b).alone) := by
  intro done rest
  simp only [List.cons_append, List.nil_append, sweepFrom, hf, if_true]
  rfl

end Becomes

/-! ## Tokens under several passes -/

/-- The outcome is the result that is expected or, where none is, a refusal of arithmetic. -/
def Yields {α : Type} (outcome : Except ReductionError α) : Option α → Prop
  | some a => outcome = .ok a
  | none => ∃ cause, outcome = .error (.domain cause)

/-- A refusal is passed on; a result is what the next step goes on with. -/
theorem Yields.bind {α β : Type} {outcome : Except ReductionError α} {m : Option α}
    (h : Yields outcome m) {next : α → Except ReductionError β} {n : Option β}
    (hsome : ∀ a, m = some a → Yields (next a) n) (hnone : m = none → n = none) :
    Yields (outcome >>= next) n := by
  cases m with
  | some a =>
    rw [show outcome = .ok a from h]
    exact hsome a rfl
  | none =>
    obtain ⟨cause, rfl⟩ := h
    rw [hnone rfl]
    exact ⟨cause, rfl⟩

/-- What a further pass makes of a row; what was refused before stays refused. -/
def Continues (passes : Operator → Bool) : Option (List Item) → Option (List Item) → Prop
  | some row, outcome => Becomes passes row outcome
  | none, outcome => outcome = none

/-- The tokens resolve to a row that the passes, the latest first in the list, turn into the
    outcome; without one, the tokens are refused on the way. -/
def Settles : List (Operator → Bool) → List Token → Option (List Item) → Prop
  | [], tokens, outcome =>
    ∃ terms, Term.marksOfTokens tokens = terms.map .item ∧
      Yields (Term.resolveAll terms) outcome
  | passes :: earlier, tokens, outcome =>
    ∃ before, Settles earlier tokens before ∧ Continues passes before outcome

theorem Yields.resolveAll_append {terms terms' : List Term} {m n : Option (List Item)}
    (h : Yields (Term.resolveAll terms) m) (h' : Yields (Term.resolveAll terms') n) :
    Yields (Term.resolveAll (terms ++ terms')) (sideBySide m n) := by
  rw [Term.resolveAll_append]
  refine h.bind ?_ ?_
  · rintro items rfl
    refine h'.bind ?_ ?_
    · rintro items' rfl
      rfl
    · rintro rfl
      rfl
  · rintro rfl
    rfl

theorem Continues.append {passes : Operator → Bool} {r r' m n : Option (List Item)}
    (h : Continues passes r m) (h' : Continues passes r' n) :
    Continues passes (sideBySide r r') (sideBySide m n) := by
  cases r with
  | none => rw [show m = none from h]; rfl
  | some row =>
    cases r' with
    | none => rw [show n = none from h', sideBySide_none]; exact sideBySide_none m
    | some row' => exact Becomes.append h h'

namespace Settles

variable {passes : Operator → Bool} {stages : List (Operator → Bool)} {ts us : List Token}

theorem append {m n : Option (List Item)} (h : Settles stages ts m) (h' : Settles stages us n) :
    Settles stages (ts ++ us) (sideBySide m n) := by
  induction stages generalizing m n with
  | nil =>
    obtain ⟨terms, hterms, hm⟩ := h
    obtain ⟨terms', hterms', hn⟩ := h'
    refine ⟨terms ++ terms', ?_, hm.resolveAll_append hn⟩
    rw [Term.marksOfTokens_append, hterms, hterms', List.map_append]
  | cons passes earlier ih =>
    obtain ⟨r, hr, hm⟩ := h
    obtain ⟨r', hr', hn⟩ := h'
    exact ⟨sideBySide r r', ih hr hr', hm.append hn⟩

/-- An operator that no pass applies stays. -/
theorem operator {op : Operator} (h : ∀ passes ∈ stages, passes op = false) :
    Settles stages [.operator op] (some [.operator op]) := by
  induction stages with
  | nil => exact ⟨[.operator op], rfl, rfl⟩
  | cons passes earlier ih =>
    exact ⟨_, ih fun p hp => h p (List.mem_cons_of_mem _ hp), .operator (h _ List.mem_cons_self)⟩

/-- A value stays under a further pass. -/
theorem further {m : Option Value} (h : Settles stages ts (m.map Value.alone)) :
    Settles (passes :: stages) ts (m.map Value.alone) := by
  refine ⟨_, h, ?_⟩
  cases m with
  | none => rfl
  | some v => exact .value v

/-- A chain and one more operand: the passes of the operand, and one that applies the operator. -/
theorem chain {op : BinaryOperator} {m n : Option Value}
    (left : Settles (passes :: stages) ts (m.map Value.alone))
    (hop : passes (.binary op) = true) (hearlier : ∀ p ∈ stages, p (.binary op) = false)
    (right : Settles stages us (n.map Value.alone)) :
    Settles (passes :: stages) (ts ++ .operator (.binary op) :: us)
      ((m.bind fun a => n.bind (op.value? a)).map Value.alone) := by
  -- the earlier passes act on the chain, the operator and the operand apart from each other
  obtain ⟨r, hr, hm⟩ := left
  refine ⟨_, hr.append ((Settles.operator hearlier).append right), ?_⟩
  cases r with
  | none => cases m with
    | none => rfl
    | some a => cases hm
  | some row =>
    cases n with
    | none => cases m <;> rfl
    | some b => exact Becomes.binary hop hm b

/-- A function and its operand. -/
theorem function {f : UnaryFunction} {m : Option Value} (hf : passes (.function f) = true)
    (hearlier : ∀ p ∈ stages, p (.function f) = false)
    (h : Settles stages ts (m.map Value.alone)) :
    Settles (passes :: stages) (.operator (.function f) :: ts) ((m.map f.value).map Value.alone) := by
  refine ⟨_, (Settles.operator hearlier).append h, ?_⟩
  cases m with
  | none => rfl
  | some b => exact Becomes.function hf b

/-- An operand and its factorial. -/
theorem factorial {m : Option Value} (hop : passes .factorial = true)
    (hearlier : ∀ p ∈ stages, p .factorial = false)
    (h : Settles (passes :: stages) ts (m.map Value.alone)) :
    Settles (passes :: stages) (ts ++ [.operator .factorial])
      ((m.bind Value.factorial?).map Value.alone) := by
  obtain ⟨r, hr, hm⟩ := h
  refine ⟨_, hr.append (Settles.operator hearlier), ?_⟩
  cases r with
  | none => cases m with
    | none => rfl
    | some a => cases hm
  | some row => exact Becomes.factorial hop hm

end Settles

/-! ## Derivations under the passes of their category -/

/-- The passes that reduce a derivation of the category, the latest first. -/
def Category.passes : Category → List (Operator → Bool)
  | .atom => []
  | .post => [isFactorial]
  | .head | .power => [inTier .power, isFactorial]
  | .product => [inTier .product, inTier .power, isFactorial]
  | .sum => [inTier .sum, inTier .product, inTier .power, isFactorial]

/-- What a block is turned into, it is turned into when it is the whole row. -/
theorem Becomes.sweep {passes : Operator → Bool} {row : List Item} {m : Option (List Item)}
    (h : Becomes passes row m) : Yields (Reduction.sweep passes row) m := by
  rw [Reduction.sweep, ← List.append_nil row]
  cases m with
  | none =>
    obtain ⟨cause, hcause⟩ := h
    exact ⟨cause, hcause [] []⟩
  | some row' =>
    show sweepFrom passes [] (row ++ []) = .ok row'
    rw [h [] []]
    simp [sweepFrom]

theorem Continues.sweep {passes : Operator → Bool} {outcome : Except ReductionError (List Item)}
    {r m : Option (List Item)} (h : Continues passes r m) (hr : Yields outcome r) :
    Yields (outcome >>= Reduction.sweep passes) m := by
  refine hr.bind ?_ ?_
  · rintro row rfl
    exact Becomes.sweep h
  · rintro rfl
    exact h

/-- The factorials are applied before all passes, and agree with a pass of their own. -/
theorem Continues.applyFactorials {outcome : Except ReductionError (List Item)}
    {r m : Option (List Item)} (h : Continues isFactorial r m) (hr : Yields outcome r) :
    Yields (outcome >>= Reduction.applyFactorials) m := by
  refine hr.bind ?_ ?_
  · rintro items rfl
    have hsweep := Becomes.sweep h
    cases m with
    | some row => exact applyFactorials_eq_ok_iff.2 hsweep
    | none =>
      obtain ⟨cause, hcause⟩ := hsweep
      exact ⟨cause, applyFactorials_eq_domain_iff.2 hcause⟩
  · rintro rfl
    exact h

/-- **What all passes make of the tokens decides their value.** -/
theorem Settles.evaluate {ts : List Token} {m : Option (List Item)}
    (h : Settles Category.sum.passes ts m) :
    ∃ outcome, Yields outcome m ∧ Token.evaluate ts = outcome >>= result := by
  obtain ⟨r₃, ⟨r₂, ⟨r₁, ⟨r₀, ⟨terms, hterms, h₀⟩, h₁⟩, h₂⟩, h₃⟩, h₄⟩ := h
  refine ⟨_, h₄.sweep (h₃.sweep (h₂.sweep (h₁.applyFactorials h₀))), ?_⟩
  rw [Token.evaluate_of_items hterms, show reduceRow = _ from funext reduceRow_eq]
  simp only [reduced, bind_assoc]

/-- What settles to a value evaluates to its number. -/
theorem Settles.evaluate_value {ts : List Token} {m : Option Value}
    (h : Settles Category.sum.passes ts (m.map Value.alone)) :
    Yields (Token.evaluate ts) (m.map Value.number) := by
  obtain ⟨outcome, hyields, heval⟩ := h.evaluate
  rw [heval]
  refine hyields.bind ?_ ?_
  · intro row hrow
    obtain ⟨v, rfl, rfl⟩ := Option.map_eq_some_iff.1 hrow
    rfl
  · intro hnone
    rw [Option.map_eq_none_iff.1 hnone]
    rfl

/-- A group whose children settle is a value for the row around it. -/
theorem Settles.group {children : List Token} {m : Option Value}
    (h : Settles Category.sum.passes children (m.map Value.alone)) :
    Settles [] [.group children] ((m.map fun v => Value.computed v.number).map Value.alone) := by
  refine ⟨[.group (Term.ofTokens children)], rfl, ?_⟩
  have hresolve : Term.resolveAll [.group (Term.ofTokens children)] =
      (Token.evaluate children).map fun x => [.value (.computed x)] := by
    rw [Term.resolveAll, Term.resolve_group]
    cases Token.evaluate children <;> rfl
  have hvalue := h.evaluate_value
  cases m with
  | some v =>
    rw [show Token.evaluate children = .ok v.number from hvalue] at hresolve
    exact hresolve
  | none =>
    obtain ⟨cause, hcause⟩ := hvalue
    rw [hcause] at hresolve
    exact ⟨cause, hresolve⟩

/-- **A derivation settles to its meaning** under the passes of its category. -/
theorem Derives.settles {category : Category} {ts : List Token} {m : Option Value}
    (h : Derives category ts m) : Settles category.passes ts (m.map Value.alone) := by
  induction h with
  | number hread =>
    refine ⟨[.number _], rfl, ?_⟩
    simp only [Yields, Term.resolveAll, Term.resolve, hread]
    rfl
  | group h ih => exact ih.group
  | atom h ih => exact ih.further
  | factorial h ih =>
    refine ih.factorial rfl ?_
    intro p hp
    cases hp
  | post h ih => exact ih.further
  | function h ih =>
    refine ih.function rfl ?_
    intro p hp
    obtain rfl := List.mem_singleton.1 hp
    rfl
  | head h ih => exact ih
  | powers left hop right ihl ihr =>
    have htier := inTier_of_tier_eq ((BinaryOperator.mem_powers_iff _).1 hop)
    refine ihl.chain (htier .power) ?_ ihr
    intro p hp
    obtain rfl := List.mem_singleton.1 hp
    rfl
  | power h ih => exact ih.further
  | products left hop right ihl ihr =>
    have htier := inTier_of_tier_eq ((BinaryOperator.mem_products_iff _).1 hop)
    refine ihl.chain (htier .product) ?_ ihr
    rintro p (_ | ⟨_, hp⟩)
    · exact htier .power
    · obtain rfl := List.mem_singleton.1 hp
      rfl
  | product h ih => exact ih.further
  | sums left hop right ihl ihr =>
    have htier := inTier_of_tier_eq ((BinaryOperator.mem_sums_iff _).1 hop)
    refine ihl.chain (htier .sum) ?_ ihr
    rintro p (_ | ⟨_, _ | ⟨_, hp⟩⟩)
    · exact htier .product
    · exact htier .power
    · obtain rfl := List.mem_singleton.1 hp
      rfl

end Reckoner
