/-
  Numbers as text.

  `text` writes a float the way the calculator answers: the fewest digits that read back, never
  an exponent, no point behind an integer, `inf` and `-inf` for the infinities, `NaN` for
  not-a-number, and a minus sign on the negative zero.

  `read?` accepts more than `text` writes: a sign of either kind, `inf`, `infinity` and `nan` in
  any letter case, digits on only one side of the point, and an exponent.  Nothing else is a
  number: no blanks, no separators between digits, no bare sign, point or exponent.  The value is
  the float nearest to the decimal that is written.
-/
import Reckoner.Number.Shortest

namespace Reckoner.Number

open Float.Model.UnpackedFloat (Sign)

/-! ## Writing -/

/-- A minus sign for negative numbers, nothing for others. -/
def signChars : Sign → List Char
  | .negative => ['-']
  | .positive => []

/-- The characters of a number. -/
def chars (x : Float) : List Char :=
  match x.toModel.unpack with
  | .notANumber => "NaN".toList
  | .infinity sign => signChars sign ++ "inf".toList
  | .zero sign => signChars sign ++ ['0']
  | .finite sign mantissa exponent positive =>
    signChars sign ++ (Decimal.shortest mantissa exponent positive).chars

/-- The text of a number. -/
def text (x : Float) : String :=
  String.ofList (chars x)

/-! ## Reading -/

/-- The positive infinity. -/
def infinity : Float :=
  .ofModel (.pack (.infinity .positive))

/-- Not-a-number. -/
def notANumber : Float :=
  .ofModel (.pack .notANumber)

/-- An optional sign, and what follows it. -/
def splitSign : List Char → Sign × List Char
  | '-' :: rest => (.negative, rest)
  | '+' :: rest => (.positive, rest)
  | rest => (.positive, rest)

/-- The number of a non-empty run of digits. -/
def readDigits? (cs : List Char) : Option Nat :=
  if cs ≠ [] ∧ cs.all Char.isDigit then some (Nat.ofDigitChars 10 cs 0) else none

/-- The exponent behind the digits: none is `0`, else `e` or `E`, an optional sign and digits. -/
def readExponent? : List Char → Option Int
  | [] => some 0
  | c :: rest =>
    if c = 'e' ∨ c = 'E' then
      (readDigits? (splitSign rest).2).map fun n => (splitSign rest).1.apply n
    else none

/-- The digits before a point, those behind it, and what follows; the point is optional. -/
def splitDigits (cs : List Char) : List Char × List Char × List Char :=
  match cs.dropWhile Char.isDigit with
  | '.' :: rest =>
    (cs.takeWhile Char.isDigit, rest.takeWhile Char.isDigit, rest.dropWhile Char.isDigit)
  | rest => (cs.takeWhile Char.isDigit, [], rest)

/-- A number without a sign, written in digits. -/
def readDecimal? (cs : List Char) : Option Float :=
  match splitDigits cs with
  | (whole, fraction, rest) =>
    (readDigits? (whole ++ fraction)).bind fun units =>
      (readExponent? rest).map fun exponent =>
        .ofModel (.ofScientific units (exponent - fraction.length))

/-- A number without a sign: a word for infinity or not-a-number, or digits. -/
def readUnsigned? (cs : List Char) : Option Float :=
  let word := cs.map Char.toLower
  if word = "inf".toList ∨ word = "infinity".toList then some infinity
  else if word = "nan".toList then some notANumber
  else readDecimal? cs

/-- The number that the characters write, if they write one. -/
def readChars? (cs : List Char) : Option Float :=
  (readUnsigned? (splitSign cs).2).map fun x =>
    match (splitSign cs).1 with
    | .negative => -x
    | .positive => x

/-- The number that a text writes, if it writes one. -/
def read? (text : String) : Option Float :=
  readChars? text.toList

end Reckoner.Number
