/-
  Rows that say the same, grouped or not.

  The same text can be held as a flat row, as a grouped row, or as anything in between: some
  parentheses grouped, others not, at any depth.  `Token.flatAll` writes every group out again, so
  two rows hold the same text when their flat forms are equal.

  Evaluation looks at one level at a time.  It brackets the parentheses of a row, goes into the
  groups, and brackets there again; a group that was there before is an item like any other.  It is
  not obvious, then, that only the text counts.  It does, as long as parentheses balance inside
  each group: a parenthesis in a group never meets one outside it, so it must not need one.

  1. **Depth (`depthAfter?_flatAll`)** — a group whose contents balance is written out as a balanced
     bracket, which changes no depth.

  2. **Reading (`readRow_flatAll`)** — reading that bracket puts the same item into the row as
     reading the group, whatever has been read before.

  Both are steps along a row, given the same about the contents of its groups; the induction is on
  the depth of the groups.
-/
import Reckoner.Proofs.Balance
import Reckoner.Proofs.Grouping

namespace Reckoner

/-! ## Flat rows -/

mutual

/-- A token with its groups, at every depth, written out as parentheses. -/
def Token.flat : Token → List Token
  | .number text => [.number text]
  | .operator op => [.operator op]
  | .opening => [.opening]
  | .closing => [.closing]
  | .group children => .opening :: Token.flatAll children ++ [.closing]

/-- A row with its groups, at every depth, written out as parentheses. -/
def Token.flatAll : List Token → List Token
  | [] => []
  | token :: rest => token.flat ++ Token.flatAll rest

end

/-- The parentheses balance in the row itself and in every group, at every depth. -/
inductive Token.BalancedThroughout : List Token → Prop
  | intro {tokens : List Token} (h : Balanced tokens)
      (hgroups : ∀ children, .group children ∈ tokens → BalancedThroughout children) :
      BalancedThroughout tokens

namespace Token

theorem flatAll_item {token : Token} (h : token.flat = [token]) (rest : List Token) :
    flatAll (token :: rest) = token :: flatAll rest := by
  rw [flatAll, h]
  rfl

theorem flatAll_group (children rest : List Token) :
    flatAll (.group children :: rest) =
      .opening :: flatAll children ++ .closing :: flatAll rest := by
  rw [flatAll, flat, List.append_assoc]
  rfl

/-! ## Depth -/

/-- Writing the groups of a row out changes no depth, if their contents balance when written out. -/
theorem depthAfter?_flatAll {tokens : List Token}
    (h : ∀ children, .group children ∈ tokens → depthAfter? 0 (flatAll children) = some 0)
    (depth : Nat) : depthAfter? depth (flatAll tokens) = depthAfter? depth tokens := by
  induction tokens generalizing depth with
  | nil => rfl
  | cons token rest ih =>
    have hrest := ih fun children hmem => h children (List.mem_cons_of_mem _ hmem)
    cases token with
    | number text =>
      rw [flatAll_item rfl, depthAfter?_item rfl, depthAfter?_item rfl, hrest]
    | operator op =>
      rw [flatAll_item rfl, depthAfter?_item rfl, depthAfter?_item rfl, hrest]
    | opening => exact hrest (depth + 1)
    | closing =>
      cases depth with
      | zero => rfl
      | succ depth => exact hrest depth
    | group children =>
      rw [flatAll_group, depthAfter?_bracket (h children List.mem_cons_self),
        depthAfter?_item rfl, hrest]

theorem BalancedThroughout.depthAfter?_flatAll {tokens : List Token}
    (h : BalancedThroughout tokens) : depthAfter? 0 (flatAll tokens) = some 0 := by
  induction h with
  | intro hbalanced _ ih => rw [Token.depthAfter?_flatAll ih, balanced_iff.1 hbalanced]

end Token

/-! ## Reading -/

namespace Term

open Brackets (Levels)

/-- A row of tokens has the same depth as what it is to a row of terms. -/
theorem depthAfter?_marksOfTokens (depth : Nat) (tokens : List Token) :
    Brackets.depthAfter? depth (marksOfTokens tokens) = Token.depthAfter? depth tokens := by
  induction tokens generalizing depth with
  | nil => rfl
  | cons token rest ih =>
    cases token with
    | number text => exact ih depth
    | operator op => exact ih depth
    | opening => exact ih (depth + 1)
    | closing =>
      cases depth with
      | zero => rfl
      | succ depth => exact ih depth
    | group children => exact ih depth

/-- Reading a balanced bracket of tokens is reading the group it writes. -/
theorem readRow_bracket {inner : List Token} (h : Token.depthAfter? 0 inner = some 0)
    (levels : Levels Term) (rest : List Token) :
    levels.readRow .group (marksOfTokens (.opening :: inner ++ .closing :: rest)) =
      Levels.readRow .group ⟨.group (ofTokens inner) :: levels.innermost, levels.around⟩
        (marksOfTokens rest) := by
  have hinner : Brackets.depthAfter? 0 (marksOfTokens inner) = some 0 := by
    rw [depthAfter?_marksOfTokens, h]
  rw [marksOfTokens_append]
  exact Levels.readRow_bracket hinner levels.innermost levels.around (marksOfTokens rest)

/-- Reading a row with its groups written out is reading the row, if that is so for their
    contents. -/
theorem readRow_flatAll {tokens : List Token}
    (hdepth : ∀ children, .group children ∈ tokens →
      Token.depthAfter? 0 (Token.flatAll children) = some 0)
    (hterms : ∀ children, .group children ∈ tokens →
      ofTokens (Token.flatAll children) = ofTokens children)
    (levels : Levels Term) :
    levels.readRow .group (marksOfTokens (Token.flatAll tokens)) =
      levels.readRow .group (marksOfTokens tokens) := by
  induction tokens generalizing levels with
  | nil => rfl
  | cons token rest ih =>
    have hrest := ih (fun children hmem => hdepth children (List.mem_cons_of_mem _ hmem))
      fun children hmem => hterms children (List.mem_cons_of_mem _ hmem)
    cases token with
    | number text => exact hrest _
    | operator op => exact hrest _
    | opening => exact hrest _
    | closing => exact hrest _
    | group children =>
      rw [Token.flatAll_group, readRow_bracket (hdepth children List.mem_cons_self),
        hterms children List.mem_cons_self, hrest]
      rfl

/-- **A row and its flat form are the same row of terms.** -/
theorem ofTokens_flatAll {tokens : List Token} (h : Token.BalancedThroughout tokens) :
    ofTokens (Token.flatAll tokens) = ofTokens tokens := by
  induction h with
  | intro _ hgroups ih =>
    have hdepth := fun children hmem => (hgroups children hmem).depthAfter?_flatAll
    exact congrArg (Levels.close .group) (readRow_flatAll hdepth ih ⟨[], []⟩)

end Term

/-! ## Values -/

/-- **Only the text of a row decides its value.**  Rows whose parentheses balance throughout have
    the same value or the same failure when they are equal with all groups written out; so a row
    may be evaluated as it is or grouped first. -/
theorem evaluate_eq_of_flatAll_eq {tokens : List Token} (h : Token.BalancedThroughout tokens) :
    (∀ tokens', Token.BalancedThroughout tokens' → Token.flatAll tokens = Token.flatAll tokens' →
      Token.evaluate tokens = Token.evaluate tokens') ∧
      Token.evaluate tokens = Token.evaluate (Token.groupAll tokens) := by
  refine ⟨?_, (Token.evaluate_groupAll tokens).symm⟩
  intro tokens' h' hflat
  have hterms : Term.ofTokens tokens = Term.ofTokens tokens' := by
    rw [← Term.ofTokens_flatAll h, ← Term.ofTokens_flatAll h', hflat]
  rw [Token.evaluate, Token.evaluate, hterms]

/-- `( 2 + ( 3 ) ) !`, with its outer parentheses grouped or its inner ones. -/
theorem evaluate_half_grouped :
    Token.BalancedThroughout [.group [.number "2", .operator (.binary .add), .opening,
        .number "3", .closing], .operator .factorial] ∧
      Token.BalancedThroughout [.opening, .number "2", .operator (.binary .add),
        .group [.number "3"], .closing, .operator .factorial] ∧
      Token.evaluate [.group [.number "2", .operator (.binary .add), .opening,
          .number "3", .closing], .operator .factorial] =
        Token.evaluate [.opening, .number "2", .operator (.binary .add),
          .group [.number "3"], .closing, .operator .factorial] := by
  have houter : Token.BalancedThroughout [.group [.number "2", .operator (.binary .add), .opening,
      .number "3", .closing], .operator .factorial] := by
    refine .intro (Token.balanced_iff.2 rfl) ?_
    intro children hmem
    obtain rfl : children = [.number "2", .operator (.binary .add), .opening, .number "3",
      .closing] := by simpa using hmem
    exact .intro (Token.balanced_iff.2 rfl) (by simp)
  have hinner : Token.BalancedThroughout [.opening, .number "2", .operator (.binary .add),
      .group [.number "3"], .closing, .operator .factorial] := by
    refine .intro (Token.balanced_iff.2 rfl) ?_
    intro children hmem
    obtain rfl : children = [.number "3"] := by simpa using hmem
    exact .intro (Token.balanced_iff.2 rfl) (by simp)
  exact ⟨houter, hinner, (evaluate_eq_of_flatAll_eq houter).1 _ hinner rfl⟩

end Reckoner
