/-
  The command line.

  The first argument that is no option is the expression, even if it begins with a minus sign;
  behind `--` there are no options.  A request for the version is answered as soon as it is met,
  one for the terms of use before any expression.

  One-letter options may be written together behind one minus sign.  While the expression is
  still to come, an argument with a letter among them that is no option is the expression; once
  it is there, the letters are read one after the other, and the first decides.
-/
import Reckoner.Console.Interactive

namespace Reckoner

/-- What the program is asked for. -/
inductive Request where
  /-- To show its name and version. -/
  | version
  /-- To show the terms of use. -/
  | licence
  /-- To show how expressions are written. -/
  | help
  /-- To evaluate one expression. -/
  | evaluate (expression : String)
  /-- To read lines and answer them. -/
  | interact
deriving DecidableEq, Repr

namespace Request

/-- Whether a letter is a one-letter option: `V` asks for the version, `h` is reserved. -/
def isOptionLetter (letter : Char) : Bool :=
  letter = 'V' ∨ letter = 'h'

/-- Whether an argument asks for the version, given whether the expression is there already. -/
def asksForVersion (hasExpression : Bool) (argument : String) : Bool :=
  argument = "--version" ||
    match argument.toList with
    | '-' :: 'V' :: letters => hasExpression || letters.all isOptionLetter
    | _ => false

/-- Whether an argument asks for the terms of use. -/
def asksForLicence (argument : String) : Bool :=
  argument = "--licence" ∨ argument = "--license"

/-- The request for an expression, if there is one. -/
def ofExpression? : Option String → Request
  | none => .interact
  | some expression => if expression = "help" then .help else .evaluate expression

/-- The request that the arguments write, given the expression found so far and whether the
    terms of use have been asked for. -/
def parseAfter (expression : Option String) (licence : Bool) : List String → Request
  | [] => if licence then .licence else ofExpression? expression
  | argument :: rest =>
    if argument = "--" then
      if licence then .licence else ofExpression? (expression <|> rest.head?)
    else if asksForVersion expression.isSome argument then .version
    else if asksForLicence argument then parseAfter expression true rest
    else parseAfter (expression <|> some argument) licence rest

/-- The request that the arguments write. -/
def parse (arguments : List String) : Request :=
  parseAfter none false arguments

/-- What the program leaves behind, given what it is asked for and its input. -/
def transcript (input : List UInt8) : Request → Transcript
  | .version => .showing Notice.version
  | .licence => .showing Notice.licence
  | .help => .showing Notice.help
  | .evaluate expression => runOnce expression
  | .interact => Interactive.transcript input

end Request

end Reckoner
