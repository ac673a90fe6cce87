/-
  Grouping by positions.

  The row is scanned from the left.  At an opening parenthesis the matching closing one is found
  by counting (`matchingClose`), the stretch between them is grouped by itself, and the scan goes
  on behind it; where there is no match the group runs to the end of the row.

  No access of the scan is outside the row and the count of open parentheses never falls below
  zero; and what the scan finds is `Token.groupAll` (`groupFrom_eq`).  The scan ends because a
  group is shorter than the row it stands in, and otherwise the position moves on.
-/
import Reckoner.Proofs.Parentheses
import Reckoner.Proofs.Positions.Access

namespace Reckoner.Positions

/-! ## The scan -/

/-- The position of the closing parenthesis that brings the count of open ones to zero. -/
def closingFrom (position depth : Nat) : List Token → Except Stop (Option Nat)
  | [] => .ok none
  | .opening :: rest => closingFrom (position + 1) (depth + 1) rest
  | .closing :: rest => do
    let left ← difference depth 1
    if left = 0 then return some position
    closingFrom (position + 1) left rest
  | .number _ :: rest | .operator _ :: rest | .group _ :: rest =>
    closingFrom (position + 1) depth rest

/-- The position of the parenthesis that closes a group whose contents begin at `start`. -/
def matchingClose (tokens : List Token) (start : Nat) : Except Stop (Option Nat) := do
  let rest ← stretch tokens start tokens.length
  closingFrom start 1 rest.elements

/-- Groups a row from a position on, given what has been found in front of it. -/
def groupFrom (tokens : List Token) (index : Nat) (grouped : List Token) :
    Except Stop (List Token) :=
  if index < tokens.length then do
    match ← elementAt tokens index with
    | .opening =>
      let close ← matchingClose tokens (index + 1)
      let stop := close.getD tokens.length
      let inner ← stretch tokens (index + 1) stop
      have := inner.ordered
      have := inner.within
      have := inner.length_elements
      let children ← groupFrom inner.elements 0 []
      groupFrom tokens (stop + 1) (grouped ++ [.group children])
    | .closing => groupFrom tokens (index + 1) grouped
    | token => groupFrom tokens (index + 1) (grouped ++ [token])
  else return grouped
termination_by (tokens.length, tokens.length - index)

/-- Groups a row. -/
def group (tokens : List Token) : Except Stop (List Token) :=
  groupFrom tokens 0 []

/-! ## The match -/

theorem closingFrom_item {token : Token} (h : token.isItem = true) (position depth : Nat)
    (rest : List Token) :
    closingFrom position depth (token :: rest) = closingFrom (position + 1) depth rest := by
  cases token with
  | opening => cases h
  | closing => cases h
  | number _ => rfl
  | operator _ => rfl
  | group _ => rfl

/-- While a parenthesis is open, the count goes down by one and stays above zero. -/
theorem closingFrom_closing (position depth : Nat) (rest : List Token) :
    closingFrom position (depth + 2) (.closing :: rest) =
      closingFrom (position + 1) (depth + 1) rest := by
  have hleft : difference (depth + 2) 1 = .ok (depth + 1) := difference_of_le (by omega)
  rw [closingFrom, hleft]
  rfl

/-- No match is found in a row that closes nothing it has not opened.  The count is the depth, and
    one more for the group itself. -/
theorem closingFrom_of_open {depth depth' : Nat} {tokens : List Token}
    (h : Token.depthAfter? depth tokens = some depth') (position : Nat) :
    closingFrom position (depth + 1) tokens = .ok none := by
  induction tokens generalizing depth position with
  | nil => rfl
  | cons token rest ih =>
    rcases token.isItem_or_parenthesis with hitem | rfl | rfl
    · rw [Token.depthAfter?_item hitem] at h
      rw [closingFrom_item hitem]
      exact ih h (position + 1)
    · exact ih h (position + 1)
    · cases depth with
      | zero => cases h
      | succ depth =>
        rw [closingFrom_closing]
        exact ih h (position + 1)

/-- The match is the first closing parenthesis that is one too many. -/
theorem closingFrom_of_closes {depth : Nat} {inner : List Token}
    (h : Token.depthAfter? depth inner = some 0) (position : Nat) (rest : List Token) :
    closingFrom position (depth + 1) (inner ++ .closing :: rest) =
      .ok (some (position + inner.length)) := by
  induction inner generalizing depth position with
  | nil =>
    obtain rfl : depth = 0 := Option.some.inj h
    rfl
  | cons token inner ih =>
    rw [List.cons_append, List.length_cons,
      show position + (inner.length + 1) = position + 1 + inner.length from by omega]
    rcases token.isItem_or_parenthesis with hitem | rfl | rfl
    · rw [Token.depthAfter?_item hitem] at h
      rw [closingFrom_item hitem]
      exact ih h (position + 1)
    · exact ih h (position + 1)
    · cases depth with
      | zero => cases h
      | succ depth =>
        rw [closingFrom_closing]
        exact ih h (position + 1)

theorem matchingClose_of_open {before inner : List Token} {depth : Nat}
    (h : Token.depthAfter? 0 inner = some depth) :
    matchingClose (before ++ inner) before.length = .ok none := by
  obtain ⟨rest, hrest, hstretch⟩ := stretch_eq
    (List.append_nil (before ++ inner)).symm rfl List.length_append
  rw [matchingClose, hstretch]
  show closingFrom before.length 1 rest.elements = .ok none
  rw [hrest, closingFrom_of_open h]

theorem matchingClose_of_closes {before inner : List Token} (rest : List Token)
    (h : Token.depthAfter? 0 inner = some 0) :
    matchingClose (before ++ (inner ++ .closing :: rest)) before.length =
      .ok (some (before.length + inner.length)) := by
  obtain ⟨taken, htaken, hstretch⟩ := stretch_eq
    (List.append_nil (before ++ (inner ++ .closing :: rest))).symm rfl List.length_append
  rw [matchingClose, hstretch]
  show closingFrom before.length 1 taken.elements = _
  rw [htaken, closingFrom_of_closes h]

/-! ## The scan groups the row -/

/-- Behind the row nothing is left to group. -/
theorem groupFrom_of_length_le {tokens : List Token} {index : Nat} (h : tokens.length ≤ index)
    (grouped : List Token) : groupFrom tokens index grouped = .ok grouped := by
  rw [groupFrom, if_neg (by omega)]
  rfl

theorem groupFrom_item {token : Token} (h : token.isItem = true)
    (before rest grouped : List Token) :
    groupFrom (before ++ token :: rest) before.length grouped =
      groupFrom (before ++ token :: rest) (before.length + 1) (grouped ++ [token]) := by
  rw [groupFrom, if_pos (by rw [List.length_append, List.length_cons]; omega), elementAt_append]
  cases token with
  | opening => cases h
  | closing => cases h
  | number _ => rfl
  | operator _ => rfl
  | group _ => rfl

theorem groupFrom_closing (before rest grouped : List Token) :
    groupFrom (before ++ .closing :: rest) before.length grouped =
      groupFrom (before ++ .closing :: rest) (before.length + 1) grouped := by
  rw [groupFrom, if_pos (by rw [List.length_append, List.length_cons]; omega), elementAt_append]
  rfl

/-- An opening parenthesis with its match, if it has one, and the stretch behind it. -/
theorem groupFrom_opening {before rest children : List Token} {close : Option Nat}
    {inner : Stretch (before ++ .opening :: rest) (before.length + 1)
      (close.getD (before ++ .opening :: rest).length)}
    (hclose : matchingClose (before ++ .opening :: rest) (before.length + 1) = .ok close)
    (hinner : stretch (before ++ .opening :: rest) (before.length + 1)
      (close.getD (before ++ .opening :: rest).length) = .ok inner)
    (hchildren : groupFrom inner.elements 0 [] = .ok children) (grouped : List Token) :
    groupFrom (before ++ .opening :: rest) before.length grouped =
      groupFrom (before ++ .opening :: rest)
        (close.getD (before ++ .opening :: rest).length + 1) (grouped ++ [.group children]) := by
  rw [groupFrom, if_pos (by rw [List.length_append, List.length_cons]; omega), elementAt_append]
  show (matchingClose (before ++ .opening :: rest) (before.length + 1) >>= _) = _
  rw [hclose]
  show (stretch (before ++ .opening :: rest) (before.length + 1) _ >>= _) = _
  rw [hinner]
  show (groupFrom inner.elements 0 [] >>= _) = _
  rw [hchildren]
  rfl

/-- **The scan makes no mistake and finds the groups of the row.** -/
theorem groupFrom_eq (tokens : List Token) : ∀ before grouped : List Token,
    groupFrom (before ++ tokens) before.length grouped =
      .ok (grouped ++ Token.groupAll tokens) := by
  -- the scan moves on over the first token, which then stands in front
  have hnext : ∀ (before : List Token) (token : Token) (rest : List Token),
      before ++ token :: rest = before ++ [token] ++ rest ∧
        before.length + 1 = (before ++ [token]).length :=
    fun before token rest =>
      ⟨List.append_cons .., by simp only [List.length_append, List.length_singleton]⟩
  induction tokens using Token.row_induction with
  | nil =>
    intro before grouped
    have hend : (before ++ []).length ≤ before.length :=
      Nat.le_of_eq (congrArg List.length (List.append_nil before))
    rw [groupFrom_of_length_le hend]
    exact congrArg Except.ok (List.append_nil grouped).symm
  | item token rest hitem ih =>
    intro before grouped
    obtain ⟨hrow, hindex⟩ := hnext before token rest
    rw [groupFrom_item hitem, hrow, hindex, ih, Token.groupAll_item hitem, List.append_assoc]
    rfl
  | closing rest ih =>
    intro before grouped
    obtain ⟨hrow, hindex⟩ := hnext before .closing rest
    rw [groupFrom_closing, hrow, hindex, ih, Token.groupAll_closing]
  | bracket inner rest hinner ihinner ihrest =>
    intro before grouped
    obtain ⟨hrow, hindex⟩ := hnext before .opening (inner ++ .closing :: rest)
    have hclose : matchingClose (before ++ .opening :: (inner ++ .closing :: rest))
        (before.length + 1) = .ok (some (before.length + 1 + inner.length)) := by
      rw [hrow, hindex]
      exact matchingClose_of_closes rest hinner
    have hparts : before ++ Token.opening :: (inner ++ .closing :: rest) =
        before ++ [.opening] ++ inner ++ .closing :: rest := by simp
    obtain ⟨taken, htaken, hstretch⟩ :=
      stretch_eq hparts hindex (congrArg (· + inner.length) hindex)
    have hchildren : groupFrom taken.elements 0 [] = .ok (Token.groupAll inner) := by
      rw [htaken]
      exact ihinner [] []
    have hbehind : before ++ Token.opening :: (inner ++ .closing :: rest) =
        before ++ Token.opening :: inner ++ [Token.closing] ++ rest := by simp
    have hposition : before.length + 1 + inner.length + 1 =
        (before ++ Token.opening :: inner ++ [Token.closing]).length := by
      simp only [List.length_append, List.length_cons, List.length_nil]
      omega
    rw [List.cons_append, groupFrom_opening hclose hstretch hchildren]
    show groupFrom (before ++ .opening :: (inner ++ .closing :: rest))
      (before.length + 1 + inner.length + 1) _ = _
    rw [hbehind, hposition, ihrest, ← List.cons_append, Token.groupAll_bracket hinner,
      List.append_assoc]
    rfl
  | unclosed inner depth hinner ih =>
    intro before grouped
    obtain ⟨hrow, hindex⟩ := hnext before .opening inner
    have hclose : matchingClose (before ++ .opening :: inner) (before.length + 1) = .ok none := by
      rw [hrow, hindex]
      exact matchingClose_of_open hinner
    have hparts : before ++ Token.opening :: inner = before ++ [.opening] ++ inner ++ [] := by simp
    have hlength : (before ++ Token.opening :: inner).length =
        (before ++ [Token.opening]).length + inner.length := by rw [hrow, List.length_append]
    obtain ⟨taken, htaken, hstretch⟩ := stretch_eq hparts hindex hlength
    have hchildren : groupFrom taken.elements 0 [] = .ok (Token.groupAll inner) := by
      rw [htaken]
      exact ih [] []
    rw [groupFrom_opening hclose hstretch hchildren, Token.groupAll_unclosed hinner]
    exact groupFrom_of_length_le (Nat.le_succ _) _

theorem group_eq (tokens : List Token) : group tokens = .ok (Token.groupAll tokens) :=
  groupFrom_eq tokens [] []

end Reckoner.Positions
