/-
  Grouping the parentheses of a row of tokens.

  Only the parentheses of the row itself are grouped.  Groups that are there already are items
  like any other: their contents are not looked at.
-/
import Reckoner.Brackets
import Reckoner.Token

namespace Reckoner.Token

open Brackets (Mark nest)

/-- What a token is to a row: a parenthesis or an item. -/
def mark : Token → Mark Token
  | .opening => .opening
  | .closing => .closing
  | token => .item token

/-- Replaces each pair of parentheses, and what stands between them, by one group. -/
def groupAll (tokens : List Token) : List Token :=
  nest .group (tokens.map mark)

end Reckoner.Token
