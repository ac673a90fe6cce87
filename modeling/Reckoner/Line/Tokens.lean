/-
  From a line to its tokens.

  A line is cut into chunks at every blank, and each chunk into atoms.  The atoms become tokens
  one by one, from left to right, and a constant becomes the number it stands for, as text.  The
  first chunk or atom that is at fault decides the outcome; only when there is none are the
  parentheses of the whole line compared.
-/
import Reckoner.Line.Atom
import Reckoner.Line.Chunk
import Reckoner.Number.Text
import Reckoner.Text.Pieces
import Reckoner.Token

namespace Reckoner

/-! ## Constants -/

/-- The number of a constant, if the last answer is there when it is asked for. -/
def SignedConstant.resolve (lastAnswer : Option Float) (constant : SignedConstant) :
    Except LineError Float :=
  match constant.value? lastAnswer with
  | some x => .ok x
  | none => .error .noAnswer

namespace Line

/-! ## Atoms and chunks -/

/-- The token that an atom writes. -/
def readAtom (lastAnswer : Option Float) (atom : List Char) : Except LineError Token :=
  match Atom.ofChars? atom with
  | none => .error (.unknownAtom (String.ofList atom))
  | some .numeral => .ok (.number (String.ofList atom))
  | some (.constant constant) =>
    (constant.resolve lastAnswer).map fun x => .number (Number.text x)
  | some (.operator op) => .ok (.operator op)
  | some .opening => .ok .opening
  | some .closing => .ok .closing

/-- The tokens that a chunk writes. -/
def readChunk (lastAnswer : Option Float) (chunk : List Char) :
    Except LineError (List Token) := do
  let atoms ← Chunk.split chunk
  atoms.mapM (readAtom lastAnswer)

/-! ## Balance -/

/-- The parenthesis of which there is too much, given how many are open: a closing one without
    an opening one before it, or an opening one that is never closed. -/
def surplusFrom? (depth : Nat) : List Token → Option Parenthesis
  | [] => if depth = 0 then none else some .opening
  | .opening :: rest => surplusFrom? (depth + 1) rest
  | .closing :: rest =>
    match depth with
    | 0 => some .closing
    | depth + 1 => surplusFrom? depth rest
  | _ :: rest => surplusFrom? depth rest

/-- The parenthesis of which a list of tokens has too much. -/
def surplus? (tokens : List Token) : Option Parenthesis :=
  surplusFrom? 0 tokens

/-! ## Lines -/

/-- The tokens that the characters of a line write. -/
def readChars (lastAnswer : Option Float) (line : List Char) :
    Except LineError (List Token) := do
  let parts ← (Text.pieces ' ' line).mapM (readChunk lastAnswer)
  match surplus? parts.flatten with
  | none => return parts.flatten
  | some surplus => throw (.unbalanced surplus)

/-- The tokens that a line writes. -/
def read (lastAnswer : Option Float) (line : String) : Except LineError (List Token) :=
  readChars lastAnswer line.toList

end Line

end Reckoner
