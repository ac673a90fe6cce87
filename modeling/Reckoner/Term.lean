/-
  Terms: rows of numbers, operators and groups, without parentheses at any depth.

  This is what is evaluated.  `Term.ofTokens` takes any list of tokens to terms: grouped, not
  grouped, or half grouped at any depth.  The contents of a group are brought into this form
  first, then the parentheses of the row itself are bracketed, so each level is bracketed on its
  own and a parenthesis inside a group never meets one outside it.
-/
import Reckoner.Brackets
import Reckoner.Token

namespace Reckoner

/-- A position of a row without parentheses. -/
inductive Term where
  /-- A number as it is written. -/
  | number (text : String)
  | operator (op : Operator)
  /-- A row of its own, used as one operand. -/
  | group (children : List Term)

namespace Term

open Brackets (Mark nest)

mutual

/-- What a token is to a row of terms. -/
def markOfToken : Token → Mark Term
  | .number text => .item (.number text)
  | .operator op => .item (.operator op)
  | .opening => .opening
  | .closing => .closing
  | .group children => .item (.group (nest .group (marksOfTokens children)))

/-- What each of some tokens is to a row of terms. -/
def marksOfTokens : List Token → List (Mark Term)
  | [] => []
  | token :: rest => markOfToken token :: marksOfTokens rest

end

/-- The row of terms that a list of tokens writes. -/
def ofTokens (tokens : List Token) : List Term :=
  nest .group (marksOfTokens tokens)

end Term

end Reckoner
