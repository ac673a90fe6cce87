/-
  Rows without parentheses, and what grouping does to a row.

  `Term.ofTokens` brings tokens into a form without parentheses at any depth.  On a row that has
  none at its own level this is done position by position: the row is a row of items
  (`marksOfTokens` gives no mark but items), and its terms are those items.  Two statements about
  evaluation follow:

  * a row without parentheses at its own level is resolved from left to right and then reduced,
    each group being evaluated as a row of its own (`evaluate_of_items`, `resolve_group`);
  * grouping the parentheses of a row first changes nothing (`evaluate_groupAll`), because
    bracketing respects any relation between items that groups respect (`nest_related`).
-/
import Mathlib.Data.List.Forall2
import Reckoner.Proofs.Outcome
import Reckoner.Proofs.Parentheses
import Reckoner.Term.Evaluation

namespace Reckoner

/-! ## Tokens without parentheses -/

mutual

/-- Whether a token is no parenthesis and holds none at any depth. -/
def Token.isPlain : Token → Bool
  | .number _ | .operator _ => true
  | .opening | .closing => false
  | .group children => Token.arePlain children

/-- Whether tokens hold no parenthesis at any depth. -/
def Token.arePlain : List Token → Bool
  | [] => true
  | token :: rest => token.isPlain && Token.arePlain rest

end

theorem Token.arePlain_cons {token : Token} {rest : List Token} :
    Token.arePlain (token :: rest) = true ↔ token.isPlain = true ∧ Token.arePlain rest = true := by
  rw [Token.arePlain, Bool.and_eq_true]

theorem Token.isItem_of_arePlain {tokens : List Token} (h : Token.arePlain tokens = true) :
    ∀ token ∈ tokens, token.isItem = true := by
  induction tokens with
  | nil => exact fun token hmem => nomatch hmem
  | cons token rest ih =>
    obtain ⟨htoken, hrest⟩ := Token.arePlain_cons.1 h
    intro token' hmem
    rcases List.mem_cons.1 hmem with rfl | hmem
    · cases token' with
      | opening => cases htoken
      | closing => cases htoken
      | number _ => rfl
      | operator _ => rfl
      | group _ => rfl
    · exact ih hrest token' hmem

/-! ## Bracketing related rows -/

namespace Brackets

variable {α β : Type} {R : α → β → Prop}

/-- Two marks are both opening, both closing, or related items. -/
inductive Mark.Related (R : α → β → Prop) : Mark α → Mark β → Prop
  | item {a : α} {b : β} (h : R a b) : Mark.Related R (.item a) (.item b)
  | opening : Mark.Related R .opening .opening
  | closing : Mark.Related R .closing .closing

/-- A row is related to itself if its items are. -/
theorem related_self {R : α → α → Prop} {row : List (Mark α)} (h : ∀ a, .item a ∈ row → R a a) :
    List.Forall₂ (Mark.Related R) row row := by
  refine List.forall₂_same.2 fun mark hmark => ?_
  cases mark with
  | item a => exact .item (h a hmark)
  | opening => exact .opening
  | closing => exact .closing

/-- The same brackets are open, and what they hold is related. -/
structure Levels.Related (R : α → β → Prop) (levels : Levels α) (levels' : Levels β) : Prop where
  innermost : List.Forall₂ R levels.innermost levels'.innermost
  around : List.Forall₂ (List.Forall₂ R) levels.around levels'.around

variable {wrap : List α → α} {wrap' : List β → β}

theorem Levels.Related.read
    (hwrap : ∀ as bs, List.Forall₂ R as bs → R (wrap as) (wrap' bs))
    {levels : Levels α} {levels' : Levels β} (h : levels.Related R levels')
    {mark : Mark α} {mark' : Mark β} (hmark : mark.Related R mark') :
    (levels.read wrap mark).Related R (levels'.read wrap' mark') := by
  obtain ⟨innermost, around⟩ := levels
  obtain ⟨innermost', around'⟩ := levels'
  obtain ⟨hinner, haround⟩ := h
  cases hmark with
  | item hab => exact ⟨hinner.cons hab, haround⟩
  | opening => exact ⟨.nil, haround.cons hinner⟩
  | closing =>
    cases haround with
    | nil => exact ⟨hinner, .nil⟩
    | cons houter hrest =>
      exact ⟨houter.cons (hwrap _ _ (List.rel_reverse hinner)), hrest⟩

/-- The levels stay related from one position of the rows to the next. -/
theorem Levels.Related.readRow
    (hwrap : ∀ as bs, List.Forall₂ R as bs → R (wrap as) (wrap' bs))
    {levels : Levels α} {levels' : Levels β} (h : levels.Related R levels')
    {row : List (Mark α)} {row' : List (Mark β)} (hrow : List.Forall₂ (Mark.Related R) row row') :
    (levels.readRow wrap row).Related R (levels'.readRow wrap' row') := by
  induction hrow generalizing levels levels' with
  | nil => exact h
  | cons hmark _ ih => exact ih (h.read hwrap hmark)

theorem Levels.Related.close
    (hwrap : ∀ as bs, List.Forall₂ R as bs → R (wrap as) (wrap' bs))
    {levels : Levels α} {levels' : Levels β} (h : levels.Related R levels') :
    List.Forall₂ R (levels.close wrap) (levels'.close wrap') := by
  obtain ⟨innermost, around⟩ := levels
  obtain ⟨innermost', around'⟩ := levels'
  have hinner : List.Forall₂ R innermost innermost' := h.innermost
  have haround : List.Forall₂ (List.Forall₂ R) around around' := h.around
  refine List.rel_reverse ?_
  clear h
  induction haround generalizing innermost innermost' with
  | nil => exact hinner
  | cons houter hrest ih =>
    exact ih _ _ (houter.cons (hwrap _ _ (List.rel_reverse hinner)))

/-- **Bracketing respects every relation that wrapping respects.** -/
theorem nest_related (hwrap : ∀ as bs, List.Forall₂ R as bs → R (wrap as) (wrap' bs))
    {row : List (Mark α)} {row' : List (Mark β)} (h : List.Forall₂ (Mark.Related R) row row') :
    List.Forall₂ R (nest wrap row) (nest wrap' row') := by
  have hempty : Levels.Related R ⟨[], []⟩ ⟨[], []⟩ := ⟨.nil, .nil⟩
  exact (hempty.readRow hwrap h).close hwrap

/-- **Bracketing keeps what holds of every item** if wrapping does. -/
theorem nest_forall {P : α → Prop} (hwrap : ∀ as, (∀ a ∈ as, P a) → P (wrap as))
    {row : List (Mark α)} (h : ∀ a, .item a ∈ row → P a) : ∀ a ∈ nest wrap row, P a := by
  -- an item is related to itself if `P` holds of it
  let R : α → α → Prop := fun a b => P a ∧ a = b
  have hR : ∀ as bs, List.Forall₂ R as bs ↔ (∀ a ∈ as, P a) ∧ as = bs := by
    intro as bs
    rw [List.forall₂_and_left, List.forall₂_eq_eq_eq]
  have hwrapR : ∀ as bs, List.Forall₂ R as bs → R (wrap as) (wrap bs) := by
    intro as bs hitems
    obtain ⟨has, rfl⟩ := (hR as bs).1 hitems
    exact ⟨hwrap as has, rfl⟩
  have hrow := related_self (R := R) fun a ha => ⟨h a ha, rfl⟩
  exact ((hR _ _).1 (nest_related hwrapR hrow)).1

end Brackets

/-! ## The terms of a row of items -/

namespace Term

open Brackets (Mark nest nest_map_item)

theorem marksOfTokens_eq_map (tokens : List Token) :
    marksOfTokens tokens = tokens.map markOfToken := by
  induction tokens with
  | nil => rfl
  | cons token rest ih => rw [marksOfTokens, ih, List.map_cons]

theorem marksOfTokens_append (tokens tokens' : List Token) :
    marksOfTokens (tokens ++ tokens') = marksOfTokens tokens ++ marksOfTokens tokens' := by
  rw [marksOfTokens_eq_map, marksOfTokens_eq_map, marksOfTokens_eq_map, List.map_append]

theorem ofTokens_of_items {tokens : List Token} {terms : List Term}
    (h : marksOfTokens tokens = terms.map .item) : ofTokens tokens = terms := by
  rw [ofTokens, h, nest_map_item]

/-- Tokens that are no parentheses are a row of items. -/
theorem exists_items {tokens : List Token} (h : ∀ token ∈ tokens, token.isItem = true) :
    ∃ terms : List Term, marksOfTokens tokens = terms.map .item := by
  induction tokens with
  | nil => exact ⟨[], rfl⟩
  | cons token rest ih =>
    have htoken := h token List.mem_cons_self
    obtain ⟨terms, hterms⟩ := ih fun token hmem => h token (List.mem_cons_of_mem _ hmem)
    cases token with
    | number text => exact ⟨.number text :: terms, by rw [marksOfTokens, hterms]; rfl⟩
    | operator op => exact ⟨.operator op :: terms, by rw [marksOfTokens, hterms]; rfl⟩
    | opening => cases htoken
    | closing => cases htoken
    | group children =>
      exact ⟨.group (ofTokens children) :: terms, by rw [marksOfTokens, hterms]; rfl⟩

end Term

/-! ## Evaluation of a row of items -/

open Brackets (Mark nest)

/-- A row of items is resolved from left to right and then reduced. -/
theorem Token.evaluate_of_items {tokens : List Token} {terms : List Term}
    (h : Term.marksOfTokens tokens = terms.map .item) :
    Token.evaluate tokens = Term.resolveAll terms >>= Reduction.reduceRow := by
  rw [Token.evaluate, Term.ofTokens_of_items h]
  rfl

/-- A group is evaluated as a row of its own, and its value has no text. -/
theorem Term.resolve_group_terms (children : List Term) :
    Term.resolve (.group children) =
      (Term.evaluate children).map fun x => .value (.computed x) := by
  rw [Term.resolve, Term.evaluate]
  cases Term.resolveAll children with
  | error e => rfl
  | ok items =>
    show (Reduction.reduceRow items >>= fun x => pure (Item.value (.computed x))) = _
    cases hrow : Reduction.reduceRow items with
    | error e => simp only [bind, Except.bind, hrow]; rfl
    | ok x => simp only [bind, Except.bind, hrow]; rfl

theorem Term.resolve_group (children : List Token) :
    Term.resolve (.group (Term.ofTokens children)) =
      (Token.evaluate children).map fun x => .value (.computed x) :=
  Term.resolve_group_terms (Term.ofTokens children)

/-- What holds of the failures of every term of a row holds of those of the row. -/
theorem Term.failsOnly_resolveAll {P : ReductionError → Prop} {terms : List Term}
    (h : ∀ term ∈ terms, Outcome.FailsOnly P term.resolve) :
    Outcome.FailsOnly P (Term.resolveAll terms) := by
  induction terms with
  | nil => exact .ok []
  | cons term rest ih =>
    have hrest := ih fun term hterm => h term (List.mem_cons_of_mem _ hterm)
    rw [Term.resolveAll]
    exact (h term List.mem_cons_self).bind fun item => hrest.bind fun items => .ok _

/-- A row is resolved from left to right, one part after the other. -/
theorem Term.resolveAll_append (terms terms' : List Term) :
    resolveAll (terms ++ terms') = do
      let items ← resolveAll terms
      let items' ← resolveAll terms'
      return items ++ items' := by
  induction terms with
  | nil => cases h : resolveAll terms' <;> simp [resolveAll, h, bind, Except.bind, pure, Except.pure]
  | cons term rest ih =>
    rw [List.cons_append, resolveAll, resolveAll, ih]
    cases resolve term with
    | error e => rfl
    | ok item =>
      cases resolveAll rest with
      | error e => rfl
      | ok items => cases resolveAll terms' <;> rfl

/-! ## Grouping changes no value -/

/-- The token is an item of a row, and this is the term that it writes. -/
def Token.Denotes (token : Token) (term : Term) : Prop :=
  Term.markOfToken token = .item term

/-- A row of items is written by tokens that denote its terms, one by one. -/
theorem Term.marksOfTokens_eq_map_iff {tokens : List Token} {terms : List Term} :
    Term.marksOfTokens tokens = terms.map .item ↔ List.Forall₂ Token.Denotes tokens terms := by
  constructor
  · intro h
    induction tokens generalizing terms with
    | nil =>
      obtain rfl : terms = [] := List.map_eq_nil_iff.1 h.symm
      exact .nil
    | cons token rest ih =>
      obtain ⟨term, terms, rfl, htoken, hrest⟩ := List.map_eq_cons_iff.1 h.symm
      exact .cons htoken.symm (ih hrest.symm)
  · intro h
    induction h with
    | nil => rfl
    | cons htoken _ ih => rw [Term.marksOfTokens, htoken, ih, List.map_cons]

theorem Token.denotes_group (tokens : List Token) (terms : List Term)
    (h : List.Forall₂ Token.Denotes tokens terms) : Token.Denotes (.group tokens) (.group terms) := by
  show Mark.item (Term.group (nest .group (Term.marksOfTokens tokens))) = _
  rw [Term.marksOfTokens_eq_map_iff.2 h, Brackets.nest_map_item]

/-- A row of tokens fails, when it is resolved, as a number of it that cannot be read, or as a group
    of it does. -/
theorem Token.failsOnly_resolveAll {P : ReductionError → Prop} {tokens : List Token}
    {terms : List Term} (h : List.Forall₂ Token.Denotes tokens terms)
    (hnumber : ∀ text, .number text ∈ tokens → Number.read? text = none → P (.unreadable text))
    (hgroup : ∀ children, .group children ∈ tokens →
      Outcome.FailsOnly P (Token.evaluate children)) :
    Outcome.FailsOnly P (Term.resolveAll terms) := by
  induction h with
  | nil => exact .ok []
  | @cons token term rest terms htoken _ ih =>
    have hrest := ih (fun text hmem => hnumber text (List.mem_cons_of_mem _ hmem))
      (fun children hmem => hgroup children (List.mem_cons_of_mem _ hmem))
    have hterm : Outcome.FailsOnly P term.resolve := by
      cases token with
      | number text =>
        cases htoken
        rw [Term.resolve]
        cases hread : Number.read? text with
        | none => exact .error (hnumber text List.mem_cons_self hread)
        | some x => exact .ok _
      | operator op => cases htoken; exact .ok _
      | opening => cases htoken
      | closing => cases htoken
      | group children =>
        have hchildren := hgroup children List.mem_cons_self
        cases htoken
        show Outcome.FailsOnly P (Term.resolve (.group (Term.ofTokens children)))
        rw [Term.resolve_group]
        cases heval : Token.evaluate children with
        | error e => exact .error (hchildren e heval)
        | ok x => exact .ok _
    exact hterm.bind fun item => hrest.bind fun items => .ok _

/-- The marks of a row of tokens are those of its terms, around items that denote them. -/
theorem Term.related_marks (tokens : List Token) :
    List.Forall₂ (Mark.Related Token.Denotes) (tokens.map Token.mark)
      (Term.marksOfTokens tokens) := by
  induction tokens with
  | nil => exact .nil
  | cons token rest ih =>
    refine .cons ?_ ih
    cases token with
    | number text => exact .item rfl
    | operator op => exact .item rfl
    | opening => exact .opening
    | closing => exact .closing
    | group children => exact .item rfl

/-- The terms of a row are what its grouped tokens write, one by one. -/
theorem Term.marksOfTokens_groupAll (tokens : List Token) :
    Term.marksOfTokens (Token.groupAll tokens) = (Term.ofTokens tokens).map .item :=
  Term.marksOfTokens_eq_map_iff.2
    (Brackets.nest_related Token.denotes_group (Term.related_marks tokens))

/-- **Grouping the parentheses of a row first does not change its value.** -/
theorem Token.evaluate_groupAll (tokens : List Token) :
    Token.evaluate (Token.groupAll tokens) = Token.evaluate tokens := by
  rw [Token.evaluate, Token.evaluate,
    Term.ofTokens_of_items (Term.marksOfTokens_groupAll tokens)]

end Reckoner
