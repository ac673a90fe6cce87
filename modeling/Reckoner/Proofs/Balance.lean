/-
  Balance, by counting.

  The depth of a row is found by walking along it.  It can also be found by counting: a row has a
  depth when no front part of it closes more than it opens, and the depth is then what it opens
  and does not close (`depthAfter?_eq_none_iff`, `depthAfter?_count`).

  Tokens and characters are marks alike, a parenthesis an opening or a closing one and everything
  else an item; so the surplus that is looked for among the tokens of a line can be counted among
  its characters.
-/
import Reckoner.Line.Tokens
import Reckoner.Proofs.Parentheses

namespace Reckoner

namespace Brackets

variable {α : Type}

/-- Whether a mark is opening. -/
def Mark.isOpening : Mark α → Bool
  | .opening => true
  | .item _ | .closing => false

/-- Whether a mark is closing. -/
def Mark.isClosing : Mark α → Bool
  | .closing => true
  | .item _ | .opening => false

/-- A depth counts what has been opened and not closed. -/
theorem depthAfter?_count {depth depth' : Nat} {row : List (Mark α)}
    (h : depthAfter? depth row = some depth') :
    depth' + row.countP Mark.isClosing = depth + row.countP Mark.isOpening := by
  fun_induction depthAfter? depth row with
  | case1 depth => cases h; rfl
  | case2 depth a row ih =>
    rw [List.countP_cons_of_neg Bool.false_ne_true, List.countP_cons_of_neg Bool.false_ne_true]
    exact ih h
  | case3 depth row ih =>
    have hcount := ih h
    rw [List.countP_cons_of_neg Bool.false_ne_true, List.countP_cons_of_pos rfl]
    omega
  | case4 row => cases h
  | case5 depth row ih =>
    have hcount := ih h
    rw [List.countP_cons_of_pos rfl, List.countP_cons_of_neg Bool.false_ne_true]
    omega

/-- **A row has no depth exactly when a front part of it closes more than it opens.** -/
theorem depthAfter?_eq_none_iff {depth : Nat} {row : List (Mark α)} :
    depthAfter? depth row = none ↔ ∃ front, front <+: row ∧
      depth + front.countP Mark.isOpening < front.countP Mark.isClosing := by
  constructor
  · intro h
    rcases isOpen_or_closes depth row with ⟨depth', hopen⟩ | ⟨inner, rest, rfl, hinner⟩
    · rw [h] at hopen; cases hopen
    · -- the first closing mark too many ends such a part
      have hcount := depthAfter?_count hinner
      refine ⟨inner ++ [.closing], ⟨rest, by simp⟩, ?_⟩
      rw [List.countP_append, List.countP_append, List.countP_cons_of_neg Bool.false_ne_true,
        List.countP_cons_of_pos rfl, List.countP_nil, List.countP_nil]
      omega
  · rintro ⟨front, ⟨rest, rfl⟩, hlt⟩
    rw [depthAfter?_append]
    cases hfront : depthAfter? depth front with
    | none => rfl
    | some depth' =>
      have hcount := depthAfter?_count hfront
      omega

variable {γ : Type} (mark : γ → Mark α)

theorem depthAfter?_map_count {depth depth' : Nat} {row : List γ}
    (h : depthAfter? depth (row.map mark) = some depth') :
    depth' + row.countP (fun c => (mark c).isClosing) =
      depth + row.countP (fun c => (mark c).isOpening) := by
  have hcount := depthAfter?_count h
  rwa [List.countP_map, List.countP_map] at hcount

theorem depthAfter?_map_eq_none_iff {depth : Nat} {row : List γ} :
    depthAfter? depth (row.map mark) = none ↔ ∃ front, front <+: row ∧
      depth + front.countP (fun c => (mark c).isOpening) <
        front.countP (fun c => (mark c).isClosing) := by
  rw [depthAfter?_eq_none_iff]
  constructor
  · rintro ⟨front, hfront, hlt⟩
    obtain ⟨front, hprefix, rfl⟩ := List.prefix_map_iff.1 hfront
    rw [List.countP_map, List.countP_map] at hlt
    exact ⟨front, hprefix, hlt⟩
  · rintro ⟨front, hfront, hlt⟩
    refine ⟨front.map mark, hfront.map mark, ?_⟩
    rw [List.countP_map, List.countP_map]
    exact hlt

end Brackets

/-! ## Tokens -/

namespace Token

/-- Whether a token is an opening parenthesis. -/
def isOpening : Token → Bool
  | .opening => true
  | .number _ | .operator _ | .closing | .group _ => false

/-- Whether a token is a closing parenthesis. -/
def isClosing : Token → Bool
  | .closing => true
  | .number _ | .operator _ | .opening | .group _ => false

/-- The parentheses of a row balance: no front part closes more than it opens, and everything
    that is opened is closed. -/
def Balanced (tokens : List Token) : Prop :=
  (∀ front, front <+: tokens → front.countP isClosing ≤ front.countP isOpening) ∧
    tokens.countP isOpening = tokens.countP isClosing

theorem isOpening_mark (token : Token) : token.mark.isOpening = token.isOpening := by
  cases token <;> rfl

theorem isClosing_mark (token : Token) : token.mark.isClosing = token.isClosing := by
  cases token <;> rfl

theorem depthAfter?_eq_none_iff {tokens : List Token} :
    depthAfter? 0 tokens = none ↔
      ∃ front, front <+: tokens ∧ front.countP isOpening < front.countP isClosing := by
  rw [depthAfter?, Brackets.depthAfter?_map_eq_none_iff]
  simp only [isOpening_mark, isClosing_mark, Nat.zero_add]

theorem depthAfter?_count {tokens : List Token} {depth : Nat}
    (h : depthAfter? 0 tokens = some depth) :
    depth + tokens.countP isClosing = tokens.countP isOpening := by
  have hcount := Brackets.depthAfter?_map_count mark h
  simpa only [isOpening_mark, isClosing_mark, Nat.zero_add] using hcount

theorem balanced_iff {tokens : List Token} : Balanced tokens ↔ depthAfter? 0 tokens = some 0 := by
  constructor
  · rintro ⟨hfront, hequal⟩
    cases hdepth : depthAfter? 0 tokens with
    | none =>
      obtain ⟨front, hprefix, hlt⟩ := depthAfter?_eq_none_iff.1 hdepth
      have hle := hfront front hprefix
      omega
    | some depth =>
      have hcount := depthAfter?_count hdepth
      congr 1
      omega
  · intro h
    have hcount := depthAfter?_count h
    refine ⟨fun front hprefix => Nat.le_of_not_lt fun hlt => ?_, by omega⟩
    have hnone : depthAfter? 0 tokens = none := depthAfter?_eq_none_iff.2 ⟨front, hprefix, hlt⟩
    rw [hnone] at h
    cases h

end Token

/-! ## Characters -/

namespace Line

open Brackets (Mark)

/-- What a character is to the brackets of a line. -/
def mark (c : Char) : Mark Char :=
  if c = '(' then .opening else if c = ')' then .closing else .item c

/-- How many parentheses are open after some characters if some are before them; none if more
    are closed than are open. -/
def depthAfter? (depth : Nat) (cs : List Char) : Option Nat :=
  Brackets.depthAfter? depth (cs.map mark)

theorem isOpening_mark (c : Char) : (mark c).isOpening = (c == '(') := by
  rw [mark]
  by_cases hopening : c = '('
  · rw [if_pos hopening, hopening]; rfl
  · rw [if_neg hopening, beq_eq_false_iff_ne.2 hopening]
    split <;> rfl

theorem isClosing_mark (c : Char) : (mark c).isClosing = (c == ')') := by
  rw [mark]
  by_cases hopening : c = '('
  · rw [if_pos hopening, hopening]; rfl
  · by_cases hclosing : c = ')'
    · rw [if_neg hopening, if_pos hclosing, hclosing]; rfl
    · rw [if_neg hopening, if_neg hclosing, beq_eq_false_iff_ne.2 hclosing]; rfl

theorem depthAfter?_eq_none_iff {cs : List Char} :
    depthAfter? 0 cs = none ↔ ∃ front, front <+: cs ∧ front.count '(' < front.count ')' := by
  rw [depthAfter?, Brackets.depthAfter?_map_eq_none_iff]
  simp only [isOpening_mark, isClosing_mark, Nat.zero_add]
  rfl

theorem depthAfter?_count {cs : List Char} {depth : Nat} (h : depthAfter? 0 cs = some depth) :
    depth + cs.count ')' = cs.count '(' := by
  have hcount := Brackets.depthAfter?_map_count mark h
  simp only [isOpening_mark, isClosing_mark, Nat.zero_add] at hcount
  exact hcount

/-- A character that is no parenthesis changes no depth. -/
theorem depthAfter?_cons {c : Char} (h : Chunk.isParenthesis c = false) (depth : Nat)
    (cs : List Char) : depthAfter? depth (c :: cs) = depthAfter? depth cs := by
  have hne := of_decide_eq_false h
  rw [depthAfter?, List.map_cons, mark, if_neg fun hopening => hne (.inl hopening),
    if_neg fun hclosing => hne (.inr hclosing)]
  rfl

theorem depthAfter?_append (depth : Nat) (cs cs' : List Char) :
    depthAfter? depth (cs ++ cs') = (depthAfter? depth cs).bind (depthAfter? · cs') := by
  rw [depthAfter?, List.map_append, Brackets.depthAfter?_append]
  rfl

/-! ## The surplus -/

/-- The surplus that a depth shows. -/
def surplusOf : Option Nat → Option Parenthesis
  | none => some .closing
  | some 0 => none
  | some (_ + 1) => some .opening

/-- The surplus of a row of tokens is the one that its depth shows. -/
theorem surplusFrom?_eq (depth : Nat) (tokens : List Token) :
    surplusFrom? depth tokens = surplusOf (Token.depthAfter? depth tokens) := by
  induction tokens generalizing depth with
  | nil =>
    cases depth with
    | zero => rfl
    | succ depth => rfl
  | cons token rest ih =>
    rcases token.isItem_or_parenthesis with hitem | rfl | rfl
    · rw [Token.depthAfter?_item hitem, ← ih]
      cases token with
      | opening => cases hitem
      | closing => cases hitem
      | number _ => rfl
      | operator _ => rfl
      | group _ => rfl
    · exact ih (depth + 1)
    · cases depth with
      | zero => rfl
      | succ depth => exact ih depth

end Line

end Reckoner
