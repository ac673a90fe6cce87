/-
  Tokens: what a line consists of.

  A line is first read into a flat list of numbers, operators and parentheses.  Grouping turns
  each pair of parentheses, with what stands between them, into one token.  A list may also be
  half grouped: `Token` allows parentheses and groups side by side, and groups that hold
  parentheses again.

  `chars` shows a token.  A group is shown with its parentheses apart from its contents, so the
  shown text is itself a line that can be read.
-/
import Reckoner.Operator

namespace Reckoner

/-- A piece of a line. -/
inductive Token where
  /-- A number, kept as it is written. -/
  | number (text : String)
  | operator (op : Operator)
  /-- An opening parenthesis that is not yet grouped. -/
  | opening
  /-- A closing parenthesis that is not yet grouped. -/
  | closing
  /-- What stood between two parentheses. -/
  | group (children : List Token)

namespace Token

/-- When a token is applied; only operators are. -/
def tier : Token → Tier
  | .operator op => op.tier
  | .number _ | .opening | .closing | .group _ => .operand

/-- Which neighbours a token uses; only operators use any. -/
def arity : Token → Arity
  | .operator op => op.arity
  | .number _ | .opening | .closing | .group _ => .none

mutual

/-- The characters that show a token. -/
def chars : Token → List Char
  | .number text => text.toList
  | .operator op => op.symbol.toList
  | .opening => ['(']
  | .closing => [')']
  | .group children => '(' :: charsAfterBlanks children ++ [' ', ')']

/-- The characters that show each of some tokens, a blank in front of every one. -/
def charsAfterBlanks : List Token → List Char
  | [] => []
  | token :: rest => ' ' :: chars token ++ charsAfterBlanks rest

end

/-- The text that shows a token. -/
def shown (token : Token) : String :=
  String.ofList token.chars

end Token

end Reckoner
