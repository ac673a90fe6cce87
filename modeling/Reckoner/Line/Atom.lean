/-
  Atoms: the smallest pieces of a line.

  An atom is a parenthesis, an operator, a constant with or without a minus sign, or a numeral.
  It must be one of these as a whole: a text that merely begins like an atom is none.  A numeral
  here is plainer than what `Number.read?` accepts: ASCII digits, a minus sign in front if need
  be, and a point only between digits.
-/
import Reckoner.Constant
import Reckoner.Line.Error
import Reckoner.Operator

namespace Reckoner

/-- What an atom is. -/
inductive Atom where
  | numeral
  | constant (constant : SignedConstant)
  | operator (op : Operator)
  | opening
  | closing
deriving DecidableEq, Repr

namespace Atom

/-! ## Recognition -/

/-- Whether a minus sign stands in front, and what follows it. -/
def splitMinus : List Char → Bool × List Char
  | '-' :: rest => (true, rest)
  | rest => (false, rest)

/-- Whether the characters are digits, and at least one. -/
def areDigits (cs : List Char) : Bool :=
  !cs.isEmpty && cs.all Char.isDigit

/-- Whether the characters are a numeral without a sign. -/
def isUnsignedNumeral (cs : List Char) : Bool :=
  areDigits (cs.takeWhile Char.isDigit) &&
    match cs.dropWhile Char.isDigit with
    | [] => true
    | '.' :: fraction => areDigits fraction
    | _ :: _ => false

/-- Whether the characters are a numeral. -/
def isNumeral (cs : List Char) : Bool :=
  isUnsignedNumeral (splitMinus cs).2

/-- The signed constant that the characters write. -/
def constant? (cs : List Char) : Option SignedConstant :=
  (Constant.ofName? (String.ofList (splitMinus cs).2)).map fun named =>
    ⟨named, (splitMinus cs).1⟩

/-- What the characters are, as a whole. -/
def ofChars? (cs : List Char) : Option Atom :=
  if cs = ['('] then some .opening
  else if cs = [')'] then some .closing
  else if isNumeral cs then some .numeral
  else
    match Operator.ofSymbol? (String.ofList cs) with
    | some op => some (.operator op)
    | none => (constant? cs).map .constant

/-- What a text is, as a whole. -/
def classify (text : String) : Except LineError Atom :=
  match ofChars? text.toList with
  | some atom => .ok atom
  | none => .error (.unknownAtom text)

/-! ## Place in a row -/

/-- When an atom is applied; only operators are. -/
def tier : Atom → Tier
  | .operator op => op.tier
  | .numeral | .constant _ | .opening | .closing => .operand

/-- Which neighbours an atom uses; only operators use any. -/
def arity : Atom → Arity
  | .operator op => op.arity
  | .numeral | .constant _ | .opening | .closing => .none

end Atom

end Reckoner
