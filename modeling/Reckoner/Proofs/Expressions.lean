/-
  Evaluation accepts exactly the expressions of the grammar, and returns their meaning.

  1. **From a derivation to the value** — `Derives.settles`: under all passes, a derivation of a
     sum is left with its meaning alone, or is refused in it by arithmetic.

  2. **From the value to a derivation** — `spans_of_reduced`: what is left after all passes are
     meanings of expressions, side by side.  If a single value is left, the tokens are a single
     expression.

  The two meet at the groups.  A group is a value for the row around it exactly when its children
  evaluate, so the second part is an induction on the depth of the groups
  (`exists_meaning_of_evaluate`); in the first it is a rule of the induction on the derivation.
-/
import Reckoner.Proofs.Blocks
import Reckoner.Proofs.Spans

namespace Reckoner

open Reduction

/-! ## What is left -/

theorem exists_values {row : List Item} (h : ∀ op, .operator op ∉ row) :
    ∃ values : List Value, row = values.map .value := by
  induction row with
  | nil => exact ⟨[], rfl⟩
  | cons item row ih =>
    obtain ⟨values, rfl⟩ := ih fun op hop => h op (List.mem_cons_of_mem _ hop)
    cases item with
    | value v => exact ⟨v :: values, rfl⟩
    | operator op => exact (h op List.mem_cons_self).elim

theorem filterMap_value? (values : List Value) :
    (values.map Item.value).filterMap Item.value? = values := by
  rw [List.filterMap_map]
  exact List.filterMap_some

/-- A row has a result when it is a single value. -/
theorem result_eq_ok {values : List Value} {x : Float} (h : result (values.map .value) = .ok x) :
    ∃ v, values = [v] ∧ v.number = x := by
  rw [result, filterMap_value?] at h
  match values, h with
  | [v], h => exact ⟨v, rfl, Except.ok.inj h⟩

/-! ## From the value to a derivation -/

/-- Resolved tokens are operands side by side with operators, if every group among them that
    evaluates is an expression. -/
theorem spans_of_resolveAll {ts : List Token} {terms : List Term} {items : List Item}
    (hgroups : ∀ children, .group children ∈ ts → ∀ x, Token.evaluate children = .ok x →
      ∃ literal, Means .sum children ⟨x, literal⟩)
    (hterms : Term.marksOfTokens ts = terms.map .item)
    (h : Term.resolveAll terms = .ok items) : Spans (Means .atom) ts items := by
  induction ts generalizing terms items with
  | nil =>
    obtain rfl : terms = [] := List.map_eq_nil_iff.1 hterms.symm
    cases h
    exact .nil
  | cons token rest ih =>
    obtain ⟨term, terms, rfl, htoken, hrest⟩ := List.map_eq_cons_iff.1 hterms.symm
    obtain ⟨item, hitem, hitems⟩ := Outcome.bind_eq_ok.1 h
    obtain ⟨items, hrestItems, hcons⟩ := Outcome.bind_eq_ok.1 hitems
    cases hcons
    have hspan := ih (fun children hmem => hgroups children (List.mem_cons_of_mem _ hmem))
      hrest.symm hrestItems
    cases token with
    | number text =>
      cases htoken
      rw [Term.resolve] at hitem
      cases hread : Number.read? text with
      | none => rw [hread] at hitem; cases hitem
      | some x =>
        rw [hread] at hitem
        cases hitem
        exact .value (.number hread) hspan
    | operator op =>
      cases htoken
      cases hitem
      exact .operator hspan
    | opening => cases htoken
    | closing => cases htoken
    | group children =>
      -- the group was evaluated, so it is an expression by the hypothesis
      cases htoken
      have hresolve := Term.resolve_group children
      rw [show Term.resolve (.group (Term.ofTokens children)) = .ok item from hitem] at hresolve
      cases heval : Token.evaluate children with
      | error e => rw [heval] at hresolve; cases hresolve
      | ok x =>
        rw [heval] at hresolve
        cases hresolve
        obtain ⟨literal, hmeans⟩ := hgroups children List.mem_cons_self x heval
        exact .value (.group hmeans) hspan

theorem Token.arePlain_of_group_mem {ts children : List Token} (h : Token.arePlain ts = true)
    (hmem : .group children ∈ ts) : Token.arePlain children = true := by
  induction ts with
  | nil => cases hmem
  | cons token rest ih =>
    obtain ⟨htoken, hrest⟩ := Token.arePlain_cons.1 h
    rcases List.mem_cons.1 hmem with heq | hmem
    · cases heq; exact htoken
    · exact ih hrest hmem

theorem sizeOf_lt_of_group_mem {ts children : List Token} (hmem : .group children ∈ ts) :
    sizeOf children < sizeOf ts := by
  have hlt := List.sizeOf_lt_of_mem hmem
  rw [Token.group.sizeOf_spec] at hlt
  omega

/-- What evaluates is an expression with that value.  By induction on the depth of the groups. -/
theorem exists_meaning_of_evaluate (ts : List Token) (hplain : Token.arePlain ts = true)
    (x : Float) (h : Token.evaluate ts = .ok x) : ∃ literal, Means .sum ts ⟨x, literal⟩ := by
  obtain ⟨terms, hterms⟩ := Term.exists_items (Token.isItem_of_arePlain hplain)
  rw [Token.evaluate_of_items hterms] at h
  obtain ⟨items, hitems, hvalue⟩ := Outcome.bind_eq_ok.1 h
  rw [reduceRow_eq] at hvalue
  obtain ⟨row, hrow, hresult⟩ := Outcome.bind_eq_ok.1 hvalue
  -- no operator is left, so the row is values, and with a result it is one value
  obtain ⟨values, rfl⟩ := exists_values (operator_not_mem_of_reduced hrow)
  obtain ⟨v, rfl, rfl⟩ := result_eq_ok hresult
  have hgroups : ∀ children, .group children ∈ ts → ∀ y, Token.evaluate children = .ok y →
      ∃ literal, Means .sum children ⟨y, literal⟩ := by
    intro children hmem y hy
    have hlt := sizeOf_lt_of_group_mem hmem
    exact exists_meaning_of_evaluate children (Token.arePlain_of_group_mem hplain hmem) y hy
  have hspan := spans_of_reduced (spans_of_resolveAll hgroups hterms hitems) hrow
  exact ⟨v.literal, hspan.block_of_single⟩
termination_by sizeOf ts

/-! ## Rows whose groups have values -/

/-- If every group of a row has a value, then the row consists of operands and operators, unless
    one of its numbers cannot be read. -/
theorem unreadable_or_spans {ts : List Token} (hplain : Token.arePlain ts = true)
    (hgroups : ∀ children, .group children ∈ ts → ∃ x, Token.evaluate children = .ok x) :
    (∃ text, Token.evaluate ts = .error (.unreadable text)) ∨
      ∃ items, Spans (Means .atom) ts items ∧ Token.evaluate ts = reduceRow items := by
  obtain ⟨terms, hterms⟩ := Term.exists_items (Token.isItem_of_arePlain hplain)
  rw [Token.evaluate_of_items hterms]
  have hfails : Outcome.FailsOnly (fun e => ∃ text, e = .unreadable text)
      (Term.resolveAll terms) := by
    refine Token.failsOnly_resolveAll (Term.marksOfTokens_eq_map_iff.1 hterms) ?_ ?_
    · exact fun text _ _ => ⟨text, rfl⟩
    · intro children hmem
      obtain ⟨x, hx⟩ := hgroups children hmem
      rw [hx]
      exact .ok x
  cases hresolve : Term.resolveAll terms with
  | error e =>
    obtain ⟨text, rfl⟩ := hfails e hresolve
    exact .inl ⟨text, rfl⟩
  | ok items =>
    refine .inr ⟨items, spans_of_resolveAll ?_ hterms hresolve, rfl⟩
    intro children hmem x hx
    exact exists_meaning_of_evaluate children (Token.arePlain_of_group_mem hplain hmem) x hx

/-! ## The main statement -/

/-- **Evaluation accepts exactly the grammar and returns the meaning.**  On tokens without
    parentheses at any depth, a number is returned exactly when it is the meaning of a derivation;
    and when an expression fails, it is arithmetic that refuses its operands. -/
theorem evaluate_accepts_exactly_expressions (ts : List Token)
    (hplain : Token.arePlain ts = true) :
    (∀ x, Token.evaluate ts = .ok x ↔ ∃ literal, Derives .sum ts (some ⟨x, literal⟩)) ∧
      (∀ m e, Derives .sum ts m → Token.evaluate ts = .error e →
        m = none ∧ ∃ cause, e = .domain cause) := by
  refine ⟨fun x => ⟨exists_meaning_of_evaluate ts hplain x, ?_⟩, ?_⟩
  · rintro ⟨literal, h⟩
    exact h.settles.evaluate_value
  · intro m e h herror
    have hvalue := h.settles.evaluate_value
    cases m with
    | some v =>
      -- a derivation with a meaning does not fail
      rw [show Token.evaluate ts = .ok v.number from hvalue] at herror
      cases herror
    | none =>
      obtain ⟨cause, hcause⟩ := hvalue
      rw [hcause] at herror
      exact ⟨rfl, cause, (Except.error.inj herror).symm⟩

/-- `2 * ( 1 + 2 ) !` is twelve: the group first, then its factorial, then the product. -/
theorem evaluate_product_of_factorial :
    Token.arePlain [.number "2", .operator (.binary .multiply),
        .group [.number "1", .operator (.binary .add), .number "2"], .operator .factorial] = true ∧
      Token.evaluate [.number "2", .operator (.binary .multiply),
        .group [.number "1", .operator (.binary .add), .number "2"], .operator .factorial] =
          .ok 12 := by
  have hplain : Token.arePlain [.number "2", .operator (.binary .multiply),
      .group [.number "1", .operator (.binary .add), .number "2"], .operator .factorial] = true := by
    decide
  have hnumber : ∀ {text x}, Number.read? text = some x →
      Derives .post [.number text] (some ⟨x, some text⟩) :=
    fun hread => .atom (.number hread)
  have hone : Number.read? "1" = some 1 := by decide
  have htwo : Number.read? "2" = some 2 := by decide
  have hsum : Derives .sum [.number "1", .operator (.binary .add), .number "2"]
      (BinaryOperator.value? .add ⟨1, some "1"⟩ ⟨2, some "2"⟩) :=
    .sums (.product (.power (.head (.post (hnumber hone))))) (by decide)
      (.power (.head (.post (hnumber htwo))))
  have hthree : BinaryOperator.value? .add ⟨1, some "1"⟩ ⟨2, some "2"⟩ = some (.computed 3) := by
    decide +kernel
  have hsix : Value.factorial? (.computed 3) = some (.computed 6) := by decide +kernel
  have htwelve : BinaryOperator.value? .multiply ⟨2, some "2"⟩ (.computed 6) =
      some (.computed 12) := by decide +kernel
  rw [hthree] at hsum
  have hgroup : Derives .atom [.group [.number "1", .operator (.binary .add), .number "2"]]
      (some (.computed 3)) := .group hsum
  have hfactorial : Derives .post ([.group [.number "1", .operator (.binary .add), .number "2"]] ++
      [.operator .factorial]) (some (.computed 6)) := hsix ▸ Derives.factorial (.atom hgroup)
  have hproduct : Derives .product ([.number "2"] ++ .operator (.binary .multiply) ::
      ([.group [.number "1", .operator (.binary .add), .number "2"]] ++ [.operator .factorial]))
        (some (.computed 12)) :=
    htwelve ▸ Derives.products (.power (.head (.post (hnumber htwo)))) (by decide)
      (.head (.post hfactorial))
  exact ⟨hplain, ((evaluate_accepts_exactly_expressions _ hplain).1 12).2 ⟨none, .product hproduct⟩⟩

end Reckoner
