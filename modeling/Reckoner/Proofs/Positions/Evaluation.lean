/-
  Evaluation by positions.

  The whole evaluator, working on positions as a program in memory does.  A row with parentheses
  is grouped and evaluated again; a row without is resolved from left to right, where a group is
  evaluated as a row of its own, and then reduced.

  1. **It ends.**  Grouping does not make a row structurally smaller: it may nest it deeper.  But
     it makes it lighter (`Token.totalWeight_groupAll`), since an opening parenthesis weighs more
     than the group it becomes, and a row is heavier than the contents of its groups.

  2. **It makes no mistake** (`evaluate_eq`).  Grouping leaves no parenthesis, a row without
     parentheses is resolved like the row of terms it writes, and its reduction makes no mistake.
     By induction along the recursion of the evaluator, over rows that are flat, grouped or half
     grouped at any depth.
-/
import Reckoner.Proofs.Grouping
import Reckoner.Proofs.Positions.Grouping
import Reckoner.Proofs.Positions.Reduction

namespace Reckoner

/-! ## The weight of a row -/

mutual

/-- What a token weighs: an opening parenthesis more than the group it becomes. -/
def Token.weight : Token → Nat
  | .number _ | .operator _ => 1
  | .opening => 2
  | .closing => 1
  | .group children => Token.totalWeight children + 1

/-- What tokens weigh together. -/
def Token.totalWeight : List Token → Nat
  | [] => 0
  | token :: rest => token.weight + Token.totalWeight rest

end

theorem Token.totalWeight_append (tokens tokens' : List Token) :
    Token.totalWeight (tokens ++ tokens') =
      Token.totalWeight tokens + Token.totalWeight tokens' := by
  induction tokens with
  | nil => rw [List.nil_append, Token.totalWeight, Nat.zero_add]
  | cons token rest ih =>
    rw [List.cons_append, Token.totalWeight, Token.totalWeight, ih, Nat.add_assoc]

/-- **Grouping makes a row lighter** by at least one for each of its parentheses. -/
theorem Token.totalWeight_groupAll (tokens : List Token) :
    Token.totalWeight (Token.groupAll tokens) + tokens.countP (fun token => !token.isItem) ≤
      Token.totalWeight tokens := by
  induction tokens using Token.row_induction with
  | nil => exact Nat.le_refl 0
  | item token rest hitem ih =>
    rw [Token.groupAll_item hitem, List.countP_cons_of_neg (by rw [hitem]; decide),
      Token.totalWeight, Token.totalWeight]
    omega
  | closing rest ih =>
    rw [Token.groupAll_closing, List.countP_cons_of_pos rfl, Token.totalWeight, Token.weight]
    omega
  | bracket inner rest hinner ihinner ihrest =>
    rw [Token.groupAll_bracket hinner, List.countP_append, List.countP_cons_of_pos rfl,
      List.countP_cons_of_pos rfl, Token.totalWeight_append]
    simp only [Token.totalWeight, Token.weight]
    omega
  | unclosed inner depth hinner ih =>
    rw [Token.groupAll_unclosed hinner, List.countP_cons_of_pos rfl]
    simp only [Token.totalWeight, Token.weight]
    omega

namespace Positions

/-! ## The evaluator -/

theorem totalWeight_group_lt {tokens grouped : List Token}
    (hany : tokens.any (fun token => !token.isItem) = true)
    (hgroup : group tokens = .ok grouped) : Token.totalWeight grouped < Token.totalWeight tokens := by
  rw [group_eq] at hgroup
  cases hgroup
  have hcount : 0 < tokens.countP (fun token => !token.isItem) := by
    rw [List.countP_pos_iff]
    exact List.any_eq_true.1 hany
  have hweight := Token.totalWeight_groupAll tokens
  omega

mutual

/-- The value of a row, grouped or not. -/
def evaluate (tokens : List Token) : Except Stop Float :=
  if hany : tokens.any (fun token => !token.isItem) = true then
    match hgroup : group tokens with
    | .error stop => .error stop
    | .ok grouped =>
      have := totalWeight_group_lt hany hgroup
      evaluate grouped
  else do
    let items ← resolve tokens
    reduceRow items
termination_by (Token.totalWeight tokens, 1)

/-- The items of a row without parentheses. -/
def resolve : List Token → Except Stop (List Item)
  | [] => .ok []
  | .number text :: rest => do
    match Number.read? text with
    | none => throw (.refusal (.unreadable text))
    | some x =>
      let items ← resolve rest
      return .value ⟨x, some text⟩ :: items
  | .group children :: rest => do
    let x ← evaluate children
    let items ← resolve rest
    return .value (.computed x) :: items
  | .operator op :: rest => do
    let items ← resolve rest
    return .operator op :: items
  | .opening :: _ | .closing :: _ => .error (.fault .parenthesis)
termination_by tokens => (Token.totalWeight tokens, 0)
decreasing_by
  all_goals
    refine Prod.Lex.left _ _ ?_
    simp only [Token.totalWeight, Token.weight]
    omega

end

/-! ## The evaluator makes no mistake -/

/-- A row with parentheses is grouped and evaluated again. -/
theorem evaluate_of_any {tokens : List Token}
    (h : tokens.any (fun token => !token.isItem) = true) :
    evaluate tokens = evaluate (Token.groupAll tokens) := by
  have hgroup := group_eq tokens
  rw [evaluate, dif_pos h]
  split
  · next stop hstop => rw [hgroup] at hstop; cases hstop
  · next grouped hgrouped => rw [hgroup] at hgrouped; cases hgrouped; rfl

/-- A row without parentheses is resolved and reduced. -/
theorem evaluate_of_items {tokens : List Token}
    (h : ¬ tokens.any (fun token => !token.isItem) = true) :
    evaluate tokens = resolve tokens >>= reduceRow := by
  rw [evaluate, dif_neg h]

/-- A row of terms is resolved one by one. -/
theorem answer_resolveAll (term : Term) (terms : List Term) :
    answer (Term.resolveAll (term :: terms)) =
      answer (Term.resolve term) >>= fun item =>
        answer (Term.resolveAll terms) >>= fun items => .ok (item :: items) := by
  rw [Term.resolveAll, answer_bind]
  congr 1
  funext item
  rw [answer_bind]
  rfl

mutual

theorem evaluate_eq (tokens : List Token) :
    evaluate tokens = answer (Token.evaluate tokens) := by
  by_cases hany : tokens.any (fun token => !token.isItem) = true
  · -- the grouped row is lighter and has the same value
    have hlt := totalWeight_group_lt hany (group_eq tokens)
    rw [evaluate_of_any hany, evaluate_eq (Token.groupAll tokens), Token.evaluate_groupAll]
  · have hitems : ∀ token ∈ tokens, token.isItem = true := by
      intro token hmem
      by_contra hitem
      refine hany (List.any_eq_true.2 ⟨token, hmem, ?_⟩)
      rw [Bool.not_eq_true _ |>.mp hitem]
      rfl
    -- so the row writes its terms one by one
    obtain ⟨terms, hterms⟩ := Term.exists_items hitems
    rw [evaluate_of_items hany, Token.evaluate_of_items hterms, resolve_eq tokens hterms,
      answer_bind]
    congr 1
    funext items
    exact reduceRow_eq items
termination_by (Token.totalWeight tokens, 1)

theorem resolve_eq (tokens : List Token) {terms : List Term}
    (h : Term.marksOfTokens tokens = terms.map .item) :
    resolve tokens = answer (Term.resolveAll terms) := by
  match tokens with
  | [] =>
    obtain rfl : terms = [] := List.map_eq_nil_iff.1 h.symm
    rw [resolve]
    rfl
  | .number text :: rest =>
    obtain ⟨term, terms, rfl, hterm, hrest⟩ := List.map_eq_cons_iff.1 h.symm
    cases hterm
    rw [answer_resolveAll, resolve, Term.resolve]
    cases Number.read? text with
    | none => rfl
    | some x => rw [resolve_eq rest hrest.symm]; rfl
  | .operator op :: rest =>
    obtain ⟨term, terms, rfl, hterm, hrest⟩ := List.map_eq_cons_iff.1 h.symm
    cases hterm
    rw [answer_resolveAll, resolve, resolve_eq rest hrest.symm]
    rfl
  | .group children :: rest =>
    obtain ⟨term, terms, rfl, hterm, hrest⟩ := List.map_eq_cons_iff.1 h.symm
    cases hterm
    rw [answer_resolveAll, resolve, evaluate_eq children, resolve_eq rest hrest.symm]
    show _ = answer (Term.resolve (.group (Term.ofTokens children))) >>= _
    rw [Term.resolve_group]
    cases Token.evaluate children with
    | error e => rfl
    | ok x => rfl
  | .opening :: rest | .closing :: rest =>
    -- a parenthesis is no item of a row of terms
    obtain ⟨term, terms, rfl, hterm, -⟩ := List.map_eq_cons_iff.1 h.symm
    cases hterm
termination_by (Token.totalWeight tokens, 0)
decreasing_by
  all_goals
    refine Prod.Lex.left _ _ ?_
    simp only [Token.totalWeight, Token.weight]
    omega

end

end Positions

/-- **Evaluation makes no mistake.**  Whatever the tokens — flat, grouped, or half grouped at any
    depth, balanced or not — the evaluator that works by positions ends with a number or with a
    reason why there is none, and it is the one of `Token.evaluate`: no position or stretch is
    outside its row, no difference is below zero, no parenthesis is resolved, operands suit their
    operator, and no operator is left. -/
theorem evaluate_by_positions (tokens : List Token) :
    (∃ x, Token.evaluate tokens = .ok x ∧ Positions.evaluate tokens = .ok x) ∨
      ∃ e, Token.evaluate tokens = .error e ∧
        Positions.evaluate tokens = .error (.refusal e) := by
  have heq := Positions.evaluate_eq tokens
  cases hvalue : Token.evaluate tokens with
  | ok x => exact .inl ⟨x, rfl, by rw [heq, hvalue]; rfl⟩
  | error e => exact .inr ⟨e, rfl, by rw [heq, hvalue]; rfl⟩

end Reckoner
