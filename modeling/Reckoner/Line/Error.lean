/-
  Why a line cannot be read.
-/

namespace Reckoner

/-- One of the two parentheses. -/
inductive Parenthesis where
  | opening
  | closing
deriving DecidableEq, Repr

/-- The character of a parenthesis. -/
def Parenthesis.char : Parenthesis → Char
  | .opening => '('
  | .closing => ')'

/-- A reason why a line cannot be read. -/
inductive LineError where
  /-- An atom that is no number, constant, operator or parenthesis. -/
  | unknownAtom (atom : String)
  /-- A chunk that holds parentheses of both kinds. -/
  | mixedParentheses (chunk : String)
  /-- There is more of one parenthesis than of the other. -/
  | unbalanced (surplus : Parenthesis)
  /-- The last answer is asked for before there is one. -/
  | noAnswer
deriving DecidableEq, Repr

/-- The wording of an unreadable line. -/
def LineError.message : LineError → String
  | .unknownAtom atom => "Unknown token: " ++ atom
  | .mixedParentheses chunk => "One token may never contain both '(' and ')': " ++ chunk
  | .unbalanced surplus =>
    let mark := String.singleton surplus.char
    "Unmatched '" ++ mark ++ "': too many '" ++ mark ++ "'"
  | .noAnswer => "Can't use `ans` without previous answer!"

end Reckoner
