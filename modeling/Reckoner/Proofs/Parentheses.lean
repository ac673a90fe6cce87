/-
  The parentheses of a row of tokens.

  `Token.groupAll` brackets the marks of a row.  This file says the same in tokens: how many
  parentheses are open after a row, how a row is taken apart at its parentheses
  (`Token.row_induction`), and what grouping makes of each part.  Only the parentheses of the row
  itself count; those inside a group are contents.
-/
import Reckoner.Proofs.Nesting
import Reckoner.Token.Grouping

namespace Reckoner.Token

open Brackets (Mark nest)

/-- Whether a token is no parenthesis. -/
def isItem : Token → Bool
  | .opening | .closing => false
  | .number _ | .operator _ | .group _ => true

theorem isItem_or_parenthesis (token : Token) :
    token.isItem = true ∨ token = .opening ∨ token = .closing := by
  cases token with
  | opening => exact .inr (.inl rfl)
  | closing => exact .inr (.inr rfl)
  | number _ => exact .inl rfl
  | operator _ => exact .inl rfl
  | group _ => exact .inl rfl

theorem mark_of_isItem {token : Token} (h : token.isItem = true) : token.mark = .item token := by
  cases token with
  | opening => cases h
  | closing => cases h
  | number _ => rfl
  | operator _ => rfl
  | group _ => rfl

theorem mark_eq_opening {token : Token} (h : token.mark = .opening) : token = .opening := by
  rcases token.isItem_or_parenthesis with hitem | rfl | rfl
  · rw [mark_of_isItem hitem] at h; cases h
  · rfl
  · cases h

theorem mark_eq_closing {token : Token} (h : token.mark = .closing) : token = .closing := by
  rcases token.isItem_or_parenthesis with hitem | rfl | rfl
  · rw [mark_of_isItem hitem] at h; cases h
  · cases h
  · rfl

theorem isItem_of_mark {token a : Token} (h : token.mark = .item a) : token.isItem = true := by
  rcases token.isItem_or_parenthesis with hitem | rfl | rfl
  · exact hitem
  · cases h
  · cases h

/-! ## Depth -/

/-- How many parentheses are open after a row if some are before it; none if the row closes more
    than are open. -/
def depthAfter? (depth : Nat) (tokens : List Token) : Option Nat :=
  Brackets.depthAfter? depth (tokens.map mark)

theorem depthAfter?_item {token : Token} (h : token.isItem = true) (depth : Nat)
    (rest : List Token) : depthAfter? depth (token :: rest) = depthAfter? depth rest := by
  rw [depthAfter?, List.map_cons, mark_of_isItem h]
  rfl

theorem depthAfter?_append (depth : Nat) (tokens tokens' : List Token) :
    depthAfter? depth (tokens ++ tokens') =
      (depthAfter? depth tokens).bind (depthAfter? · tokens') := by
  rw [depthAfter?, List.map_append, Brackets.depthAfter?_append]
  rfl

/-- A balanced pair of parentheses changes no depth. -/
theorem depthAfter?_bracket {inner : List Token} (h : depthAfter? 0 inner = some 0) (depth : Nat)
    (rest : List Token) :
    depthAfter? depth (.opening :: inner ++ .closing :: rest) = depthAfter? depth rest := by
  rw [depthAfter?, List.map_append, List.map_cons, List.map_cons]
  exact Brackets.depthAfter?_bracket h depth (rest.map mark)

/-- **A row of tokens, taken apart from the front.** -/
theorem row_induction {motive : List Token → Prop} (nil : motive [])
    (item : ∀ token rest, token.isItem = true → motive rest → motive (token :: rest))
    (closing : ∀ rest, motive rest → motive (.closing :: rest))
    (bracket : ∀ inner rest, depthAfter? 0 inner = some 0 → motive inner → motive rest →
      motive (.opening :: inner ++ .closing :: rest))
    (unclosed : ∀ inner depth, depthAfter? 0 inner = some depth → motive inner →
      motive (.opening :: inner))
    (tokens : List Token) : motive tokens := by
  have hrow : ∀ row tokens, tokens.map mark = row → motive tokens := by
    intro row
    induction row using Brackets.row_induction with
    | nil =>
      intro tokens h
      obtain rfl := List.map_eq_nil_iff.1 h
      exact nil
    | item a row ih =>
      intro tokens h
      obtain ⟨token, rest, rfl, htoken, hrest⟩ := List.map_eq_cons_iff.1 h
      exact item token rest (isItem_of_mark htoken) (ih rest hrest)
    | closing row ih =>
      intro tokens h
      obtain ⟨token, rest, rfl, htoken, hrest⟩ := List.map_eq_cons_iff.1 h
      obtain rfl := mark_eq_closing htoken
      exact closing rest (ih rest hrest)
    | bracket inner rest hinner ihinner ihrest =>
      intro tokens h
      obtain ⟨before, after, rfl, hbefore, hafter⟩ := List.map_eq_append_iff.1 h
      obtain ⟨token, inner, rfl, htoken, rfl⟩ := List.map_eq_cons_iff.1 hbefore
      obtain ⟨token', rest, rfl, htoken', rfl⟩ := List.map_eq_cons_iff.1 hafter
      obtain rfl := mark_eq_opening htoken
      obtain rfl := mark_eq_closing htoken'
      exact bracket inner rest hinner (ihinner inner rfl) (ihrest rest rfl)
    | unclosed inner depth hinner ih =>
      intro tokens h
      obtain ⟨token, inner, rfl, htoken, rfl⟩ := List.map_eq_cons_iff.1 h
      obtain rfl := mark_eq_opening htoken
      exact unclosed inner depth hinner (ih inner rfl)
  exact hrow (tokens.map mark) tokens rfl

/-- **A balanced row of tokens, taken apart from the front.**  Every parenthesis comes with its
    match. -/
@[elab_as_elim]
theorem balanced_induction {motive : List Token → Prop} (nil : motive [])
    (item : ∀ token rest, token.isItem = true → motive rest → motive (token :: rest))
    (bracket : ∀ inner rest, depthAfter? 0 inner = some 0 → motive inner → motive rest →
      motive (.opening :: inner ++ .closing :: rest))
    (tokens : List Token) (h : depthAfter? 0 tokens = some 0) : motive tokens := by
  induction tokens using row_induction with
  | nil => exact nil
  | item token rest hitem ih =>
    rw [depthAfter?_item hitem] at h
    exact item token rest hitem (ih h)
  | closing rest ih => cases h
  | bracket inner rest hinner ihinner ihrest =>
    rw [depthAfter?_bracket hinner] at h
    exact bracket inner rest hinner (ihinner hinner) (ihrest h)
  | unclosed inner depth hinner ih =>
    have hopen : depthAfter? 0 (.opening :: inner) = some (depth + 1) :=
      Brackets.depthAfter?_add hinner 1
    rw [hopen] at h
    cases h

/-! ## Grouping -/

theorem groupAll_item {token : Token} (h : token.isItem = true) (rest : List Token) :
    groupAll (token :: rest) = token :: groupAll rest := by
  rw [groupAll, List.map_cons, mark_of_isItem h, Brackets.nest_item]
  rfl

theorem groupAll_closing (rest : List Token) : groupAll (.closing :: rest) = groupAll rest :=
  Brackets.nest_closing (rest.map mark)

theorem groupAll_bracket {inner : List Token} (h : depthAfter? 0 inner = some 0)
    (rest : List Token) :
    groupAll (.opening :: inner ++ .closing :: rest) =
      .group (groupAll inner) :: groupAll rest := by
  rw [groupAll, List.map_append, List.map_cons, List.map_cons]
  exact Brackets.nest_bracket h (rest.map mark)

theorem groupAll_unclosed {inner : List Token} {depth : Nat}
    (h : depthAfter? 0 inner = some depth) :
    groupAll (.opening :: inner) = [.group (groupAll inner)] :=
  Brackets.nest_unclosed h

/-- No parenthesis of the row itself is left. -/
theorem isItem_of_mem_groupAll (tokens : List Token) :
    ∀ token ∈ groupAll tokens, token.isItem = true := by
  induction tokens using row_induction with
  | nil => exact fun token h => nomatch h
  | item token rest hitem ih =>
    intro token' h
    rw [groupAll_item hitem] at h
    rcases List.mem_cons.1 h with rfl | hmem
    · exact hitem
    · exact ih token' hmem
  | closing rest ih => exact ih
  | bracket inner rest hinner _ ih =>
    intro token h
    rw [groupAll_bracket hinner] at h
    rcases List.mem_cons.1 h with rfl | hmem
    · rfl
    · exact ih token hmem
  | unclosed inner depth hinner _ =>
    intro token h
    rw [groupAll_unclosed hinner] at h
    obtain rfl := List.mem_singleton.1 h
    rfl

end Reckoner.Token
