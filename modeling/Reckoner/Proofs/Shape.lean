/-
  Structural failures.

  An evaluation fails because of what the numbers are — a text that is no number, an operation
  that has no value — or because of how the row is built: an operand is missing, too many numbers
  are left, or none.  This file says that the second kind of failure does not look at the numbers.

  1. **Two runs (`Outcome.Alike`)** — two rows of the same shape are evaluated side by side.  A
     stage of the one and the same stage of the other end alike: one of them fails because of a
     number, and then nothing is said; or both fail for the same structural reason; or both go on
     with rows of the same shape.  Stages that follow one another keep this (`Alike.bind`).

  2. **One step (`Focus.Alike.reduce`)** — whether an operand is there can be seen in the shape of
     the row, and what a step leaves behind is cut out by the arity of its operator.

  3. **A reduction (`alike_applyAll`)** — the leftmost operator that passes a test is at the same
     place in both rows, so each step of the one row is a step of the other.  By induction on the
     length of the row.

  4. **Depth** — a group counts as a number, and the rows in two groups of the same shape have the
     same shape; so the statement passes from the groups of a row to the row, through the
     bracketing (`Brackets.nest_related`).
-/
import Reckoner.Proofs.Grouping
import Reckoner.Proofs.Step
import Reckoner.Proofs.Sweep

namespace Reckoner

/-! ## Shapes -/

/-- Two rows of tokens have the same shape: numbers stand opposite numbers, whatever their texts,
    operators opposite the same operators, parentheses opposite the same parentheses, and groups
    opposite groups of the same shape. -/
inductive Token.SameShape : List Token → List Token → Prop
  | nil : SameShape [] []
  | number (text text' : String) {rest rest' : List Token} (hrest : SameShape rest rest') :
      SameShape (.number text :: rest) (.number text' :: rest')
  | operator (op : Operator) {rest rest' : List Token} (hrest : SameShape rest rest') :
      SameShape (.operator op :: rest) (.operator op :: rest')
  | opening {rest rest' : List Token} (hrest : SameShape rest rest') :
      SameShape (.opening :: rest) (.opening :: rest')
  | closing {rest rest' : List Token} (hrest : SameShape rest rest') :
      SameShape (.closing :: rest) (.closing :: rest')
  | group {children children' rest rest' : List Token}
      (hchildren : SameShape children children') (hrest : SameShape rest rest') :
      SameShape (.group children :: rest) (.group children' :: rest')

/-- Two positions of rows under reduction hold values, or the same operator. -/
inductive Item.Alike : Item → Item → Prop
  | value (v v' : Value) : Item.Alike (.value v) (.value v')
  | operator (op : Operator) : Item.Alike (.operator op) (.operator op)

/-- Two rows are open at the same operator, among rows of the same shape. -/
structure Focus.Alike (focus focus' : Focus) : Prop where
  before : List.Forall₂ Item.Alike focus.before focus'.before
  operator : focus.operator = focus'.operator
  after : List.Forall₂ Item.Alike focus.after focus'.after

/-! ## Failures -/

/-- Whether an evaluation fails because of what a number is. -/
def ReductionError.isOfNumbers : ReductionError → Bool
  | .unreadable _ | .domain _ => true
  | .missingOperand _ _ | .tooManyResults _ _ | .nothing => false

/-- Two evaluations fail for the same structural reason. -/
inductive ReductionError.SameStructure : ReductionError → ReductionError → Prop
  | missingOperand (index : Nat) (op : Operator) :
      SameStructure (.missingOperand index op) (.missingOperand index op)
  | tooManyResults (first second first' second' : Float) :
      SameStructure (.tooManyResults first second) (.tooManyResults first' second')
  | nothing : SameStructure .nothing .nothing

namespace Outcome

/-- The outcomes of two runs side by side. -/
inductive Alike {α β : Type} (R : α → β → Prop) :
    Except ReductionError α → Except ReductionError β → Prop
  /-- The first run fails because of a number, so the second may end in any way. -/
  | left {e : ReductionError} {outcome' : Except ReductionError β} (h : e.isOfNumbers = true) :
      Alike R (.error e) outcome'
  /-- The second run fails because of a number. -/
  | right {outcome : Except ReductionError α} {e' : ReductionError} (h : e'.isOfNumbers = true) :
      Alike R outcome (.error e')
  | failure {e e' : ReductionError} (h : e.SameStructure e') : Alike R (.error e) (.error e')
  | ok {a : α} {b : β} (h : R a b) : Alike R (.ok a) (.ok b)

/-- Stages that follow one another end alike if each of them does. -/
theorem Alike.bind {α β γ δ : Type} {R : α → β → Prop} {S : γ → δ → Prop}
    {outcome : Except ReductionError α} {outcome' : Except ReductionError β}
    {next : α → Except ReductionError γ} {next' : β → Except ReductionError δ}
    (h : Alike R outcome outcome')
    (hnext : ∀ a b, outcome = .ok a → R a b → Alike S (next a) (next' b)) :
    Alike S (outcome >>= next) (outcome' >>= next') := by
  cases h with
  | left h => exact .left h
  | right h => exact .right h
  | failure h => exact .failure h
  | ok h => exact hnext _ _ rfl h

end Outcome

open Outcome (Alike)

/-! ## One step -/

theorem isSome_firstValue? {row row' : List Item} (h : List.Forall₂ Item.Alike row row') :
    (firstValue? row).isSome = (firstValue? row').isSome := by
  cases h with
  | nil => rfl
  | cons hitem _ =>
    cases hitem with
    | value => rfl
    | operator => rfl

namespace Focus.Alike

variable {focus focus' : Focus}

/-- The operands are there in both rows or in neither. -/
theorem isSome_result? (h : focus.Alike focus') :
    focus.result?.isSome = focus'.result?.isSome := by
  rw [Bool.eq_iff_iff, result?, result?, Operator.isSome_result?, Operator.isSome_result?,
    h.operator, isSome_firstValue? h.before, isSome_firstValue? h.after]

/-- A result stands in rows of the same shape. -/
theorem withResult (h : focus.Alike focus') (x x' : Float) :
    List.Forall₂ Item.Alike (Focus.withResult focus.passed x focus.remaining)
      (Focus.withResult focus'.passed x' focus'.remaining) := by
  have hpassed : List.Forall₂ Item.Alike focus.passed focus'.passed := by
    rw [Focus.passed, Focus.passed, h.operator]
    exact List.forall₂_drop _ h.before
  have hremaining : List.Forall₂ Item.Alike focus.remaining focus'.remaining := by
    rw [Focus.remaining, Focus.remaining, h.operator]
    exact List.forall₂_drop _ h.after
  exact List.rel_append (List.rel_reverse hpassed) (.cons (.value _ _) hremaining)

/-- **A step ends alike.** -/
theorem reduce (h : focus.Alike focus') :
    Outcome.Alike (List.Forall₂ Item.Alike) focus.reduce focus'.reduce := by
  have hsome := h.isSome_result?
  rw [reduce_eq, reduce_eq]
  rcases hresult : focus.result? with _ | (cause | x)
  · rcases hresult' : focus'.result? with _ | outcome'
    · -- the operand is missing behind rows of the same length
      rw [h.before.length_eq, h.operator]
      exact .failure (.missingOperand _ _)
    · rw [hresult, hresult'] at hsome; cases hsome
  · exact .left rfl
  · rcases hresult' : focus'.result? with _ | (cause' | x')
    · rw [hresult, hresult'] at hsome; cases hsome
    · exact .right rfl
    · exact .ok (h.withResult x x')

end Focus.Alike

/-! ## A row -/

variable {passes : Operator → Bool}

/-- Two rows of the same shape are opened at the same place, or not at all. -/
theorem Focus.alike_firstAfter? {before before' items items' : List Item}
    (hbefore : List.Forall₂ Item.Alike before before')
    (hitems : List.Forall₂ Item.Alike items items') :
    Option.Rel Focus.Alike (firstAfter? passes before items)
      (firstAfter? passes before' items') := by
  induction hitems generalizing before before' with
  | nil => exact .none
  | cons hitem hrest ih =>
    cases hitem with
    | value v v' => exact ih (.cons (.value v v') hbefore)
    | operator op =>
      rw [firstAfter?, firstAfter?]
      split
      · exact .some ⟨hbefore, rfl, hrest⟩
      · exact ih (.cons (.operator op) hbefore)

namespace Reduction

/-- **A reduction ends alike.**  By induction on the length of the first row, which every step makes
    shorter; each step of the one row is a step of the other. -/
theorem alike_applyAll {row row' : List Item} (h : List.Forall₂ Item.Alike row row') :
    Alike (List.Forall₂ Item.Alike) (applyAll passes row) (applyAll passes row') := by
  induction hlength : row.length using Nat.strongRecOn generalizing row row' with
  | ind length ih =>
    have hopened : Option.Rel Focus.Alike (Focus.first? passes row) (Focus.first? passes row') :=
      Focus.alike_firstAfter? .nil h
    generalize hfocus : Focus.first? passes row = opened at hopened
    generalize hfocus' : Focus.first? passes row' = opened' at hopened
    cases hopened with
    | none =>
      rw [applyAll_of_first?_eq_none hfocus, applyAll_of_first?_eq_none hfocus']
      exact .ok h
    | @some focus focus' hfoci =>
      rw [applyAll_of_first?_eq_some hfocus, applyAll_of_first?_eq_some hfocus']
      refine hfoci.reduce.bind fun reduced reduced' hreduce hreduced => ?_
      have hlt : reduced.length < length := by
        rw [← hlength, ← Focus.row_first? hfocus]
        exact Focus.length_reduce_lt hreduce
      exact ih reduced.length hlt hreduced rfl

/-- The factorials end alike: they count the same positions, and a factorial finds a value before it
    in both rows or in neither. -/
theorem alike_applyFactorialsAfter (position : Nat) {passed passed' items items' : List Item}
    (hpassed : List.Forall₂ Item.Alike passed passed')
    (hitems : List.Forall₂ Item.Alike items items') :
    Alike (List.Forall₂ Item.Alike) (applyFactorialsAfter position passed items)
      (applyFactorialsAfter position passed' items') := by
  fun_induction applyFactorialsAfter position passed items generalizing passed' items' with
  | case1 position passed =>
    cases hitems
    exact .ok (List.rel_reverse hpassed)
  | case2 position rest a before result happly ih =>
    obtain _ | ⟨hitem, hrest⟩ := hitems
    obtain _ | ⟨hvalue, hbefore⟩ := hpassed
    cases hitem
    cases hvalue with
    | value _ a' =>
      rw [applyFactorialsAfter]
      cases Arithmetic.factorial a'.number with
      | ok result' => exact ih (.cons (.value _ _) hbefore) hrest
      | error cause' => exact .right rfl
  | case3 position rest a before cause happly => exact .left rfl
  | case4 position passed rest hnone =>
    obtain _ | ⟨hitem, hrest⟩ := hitems
    cases hitem
    rw [applyFactorialsAfter]
    · exact .failure (.missingOperand position .factorial)
    · rintro a' before' rfl
      obtain _ | ⟨hvalue, hbefore⟩ := hpassed
      cases hvalue with
      | value a _ => exact hnone a _ rfl
  | case5 position passed item rest hother ih =>
    obtain _ | ⟨hitem, hrest⟩ := hitems
    cases hitem with
    | value v v' => exact ih (.cons (.value v v') hpassed) hrest
    | operator op =>
      rw [applyFactorialsAfter]
      · exact ih (.cons (.operator op) hpassed) hrest
      · exact hother

/-- The tiers end alike, one after the other. -/
theorem alike_foldlM_applyTier (tiers : List Tier) {row row' : List Item}
    (h : List.Forall₂ Item.Alike row row') :
    Alike (List.Forall₂ Item.Alike) (tiers.foldlM (fun items tier => applyTier tier items) row)
      (tiers.foldlM (fun items tier => applyTier tier items) row') := by
  induction tiers generalizing row row' with
  | nil => exact .ok h
  | cons tier tiers ih =>
    rw [List.foldlM_cons, List.foldlM_cons]
    exact (alike_applyAll h).bind fun _ _ _ hrow => ih hrow

/-- Two rows of the same shape leave the same number of values. -/
theorem alike_result {row row' : List Item} (h : List.Forall₂ Item.Alike row row') :
    Alike (fun _ _ => True) (result row) (result row') := by
  have hvalue : ∀ item item', Item.Alike item item' →
      Option.Rel (fun _ _ => True) item.value? item'.value? := by
    intro item item' hitem
    cases hitem with
    | value => exact .some trivial
    | operator => exact .none
  have hvalues : List.Forall₂ (fun _ _ => True) (row.filterMap Item.value?)
      (row'.filterMap Item.value?) := List.rel_filterMap hvalue h
  rw [result, result]
  generalize row.filterMap Item.value? = values at hvalues
  generalize row'.filterMap Item.value? = values' at hvalues
  rcases hvalues with _ | ⟨-, _ | ⟨-, -⟩⟩
  · exact .failure .nothing
  · exact .ok trivial
  · exact .failure (.tooManyResults _ _ _ _)

/-- **Two rows of the same shape are reduced alike.** -/
theorem alike_reduceRow {row row' : List Item} (h : List.Forall₂ Item.Alike row row') :
    Alike (fun _ _ => True) (reduceRow row) (reduceRow row') := by
  rw [reduceRow, reduceRow]
  refine (alike_applyFactorialsAfter 0 .nil h).bind fun folded folded' _ hfolded => ?_
  refine (alike_foldlM_applyTier _ hfolded).bind fun reduced reduced' _ hreduced => ?_
  exact alike_result hreduced

end Reduction

/-! ## A tree -/

/-- Two terms count alike in the rows around them. -/
def Term.Alike (term term' : Term) : Prop :=
  Outcome.Alike Item.Alike term.resolve term'.resolve

namespace Term

open Brackets (Mark nest nest_related)

theorem alike_resolveAll {terms terms' : List Term} (h : List.Forall₂ Term.Alike terms terms') :
    Outcome.Alike (List.Forall₂ Item.Alike) (resolveAll terms) (resolveAll terms') := by
  induction h with
  | nil => exact .ok .nil
  | cons hterm _ ih =>
    rw [resolveAll, resolveAll]
    exact hterm.bind fun _ _ _ hitem => ih.bind fun _ _ _ hitems => .ok (.cons hitem hitems)

theorem alike_evaluate {terms terms' : List Term} (h : List.Forall₂ Term.Alike terms terms') :
    Outcome.Alike (fun _ _ => True) (evaluate terms) (evaluate terms') :=
  (alike_resolveAll h).bind fun _ _ _ hitems => Reduction.alike_reduceRow hitems

/-- A group counts as a number, whatever its value is. -/
theorem alike_group (terms terms' : List Term) (h : List.Forall₂ Term.Alike terms terms') :
    Term.Alike (.group terms) (.group terms') := by
  show Outcome.Alike _ (resolve (.group terms)) (resolve (.group terms'))
  rw [resolve, resolve]
  refine (alike_resolveAll h).bind fun items items' _ hitems => ?_
  exact (Reduction.alike_reduceRow hitems).bind fun _ _ _ _ => .ok (.value _ _)

theorem alike_number (text text' : String) : Term.Alike (.number text) (.number text') := by
  show Outcome.Alike _ (resolve (.number text)) (resolve (.number text'))
  rw [resolve, resolve]
  cases Number.read? text with
  | none => exact .left rfl
  | some x =>
    cases Number.read? text' with
    | none => exact .right rfl
    | some x' => exact .ok (.value _ _)

/-- **Tokens of the same shape write the same brackets around terms that count alike.**  By
    induction on the shape; the contents of two groups are bracketed on their own. -/
theorem related_marksOfTokens {tokens tokens' : List Token} (h : Token.SameShape tokens tokens') :
    List.Forall₂ (Mark.Related Term.Alike) (marksOfTokens tokens) (marksOfTokens tokens') := by
  induction h with
  | nil => exact .nil
  | number text text' _ ih => exact .cons (.item (alike_number text text')) ih
  | operator op _ ih => exact .cons (.item (.ok (.operator op))) ih
  | opening _ ih => exact .cons .opening ih
  | closing _ ih => exact .cons .closing ih
  | group _ _ ihchildren ih =>
    exact .cons (.item (alike_group _ _ (nest_related alike_group ihchildren))) ih

end Term

theorem Token.alike_evaluate {tokens tokens' : List Token} (h : SameShape tokens tokens') :
    Outcome.Alike (fun _ _ => True) (evaluate tokens) (evaluate tokens') :=
  Term.alike_evaluate (Brackets.nest_related Term.alike_group (Term.related_marksOfTokens h))

/-- **Structural failures depend on the shape only.**  Two rows of tokens of the same shape, with
    any numbers in them: unless one of them fails because of a number, both have a value, or both
    fail for the same structural reason — the same operator at the same position lacks an operand,
    too many numbers are left, or none. -/
theorem evaluate_depends_on_shape {tokens tokens' : List Token}
    (h : Token.SameShape tokens tokens')
    (hnumbers : ∀ e, Token.evaluate tokens = .error e → e.isOfNumbers = false)
    (hnumbers' : ∀ e, Token.evaluate tokens' = .error e → e.isOfNumbers = false) :
    (∃ x x', Token.evaluate tokens = .ok x ∧ Token.evaluate tokens' = .ok x') ∨
      ∃ e e', Token.evaluate tokens = .error e ∧ Token.evaluate tokens' = .error e' ∧
        e.SameStructure e' := by
  have halike := Token.alike_evaluate h
  generalize Token.evaluate tokens = outcome at halike hnumbers
  generalize Token.evaluate tokens' = outcome' at halike hnumbers'
  cases halike with
  | left hleft => rw [hnumbers _ rfl] at hleft; cases hleft
  | right hright => rw [hnumbers' _ rfl] at hright; cases hright
  | failure hstructure => exact .inr ⟨_, _, rfl, rfl, hstructure⟩
  | ok _ => exact .inl ⟨_, _, rfl, rfl⟩

/-- Two numbers are left over, one of them from a remainder in a group and one from a factorial. -/
theorem evaluate_with_two_left :
    let tokens : List Token :=
      [.group [.number "7", .operator (.binary .remainder), .number "4"], .number "3",
        .operator .factorial]
    let tokens' : List Token :=
      [.group [.number "-10", .operator (.binary .remainder), .number "4"], .number "0",
        .operator .factorial]
    Token.SameShape tokens tokens' ∧
      Token.evaluate tokens = .error (.tooManyResults 3 6) ∧
      Token.evaluate tokens' = .error (.tooManyResults (-2) 1) ∧
      ∃ e e', Token.evaluate tokens = .error e ∧ Token.evaluate tokens' = .error e' ∧
        e.SameStructure e' := by
  intro tokens tokens'
  have hshape : Token.SameShape tokens tokens' :=
    .group (.number "7" "-10" (.operator _ (.number "4" "4" .nil)))
      (.number "3" "0" (.operator _ .nil))
  have hleft : Token.evaluate tokens = .error (.tooManyResults 3 6) := by decide +kernel
  have hright : Token.evaluate tokens' = .error (.tooManyResults (-2) 1) := by decide +kernel
  have hnumbers : ∀ e, Token.evaluate tokens = .error e → e.isOfNumbers = false := by
    intro e he
    rw [hleft] at he
    cases he
    rfl
  have hnumbers' : ∀ e, Token.evaluate tokens' = .error e → e.isOfNumbers = false := by
    intro e he
    rw [hright] at he
    cases he
    rfl
  refine ⟨hshape, hleft, hright, ?_⟩
  rcases evaluate_depends_on_shape hshape hnumbers hnumbers' with ⟨x, -, hok, -⟩ | hfailures
  · rw [hleft] at hok; cases hok
  · exact hfailures

end Reckoner
