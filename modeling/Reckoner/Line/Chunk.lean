/-
  Chunks: what stands between the blanks of a line.

  A chunk is cut into atoms at its parentheses: each parenthesis is an atom of its own, and so
  is each stretch of other characters between them.  A chunk may hold parentheses of one kind
  only, so that `(9)` has to be written with a blank in it.

  The main statement is `flatten_atoms`: cutting loses nothing.
-/
import Reckoner.Line.Error

namespace Reckoner.Chunk

/-- Whether a character is a parenthesis. -/
def isParenthesis (c : Char) : Bool := c = '(' ∨ c = ')'

/-- Puts a stretch of characters in front of some atoms, unless it is empty. -/
def consStretch (stretch : List Char) (atoms : List (List Char)) : List (List Char) :=
  if stretch = [] then atoms else stretch :: atoms

/-- The characters before the first parenthesis, and the atoms from there on. -/
def cut : List Char → List Char × List (List Char)
  | [] => ([], [])
  | c :: rest =>
    if isParenthesis c then ([], [c] :: consStretch (cut rest).1 (cut rest).2)
    else (c :: (cut rest).1, (cut rest).2)

/-- The atoms of a chunk. -/
def atoms (chunk : List Char) : List (List Char) :=
  consStretch (cut chunk).1 (cut chunk).2

/-- The atoms of a chunk that does not hold parentheses of both kinds. -/
def split (chunk : List Char) : Except LineError (List (List Char)) :=
  if '(' ∈ chunk ∧ ')' ∈ chunk then .error (.mixedParentheses (String.ofList chunk))
  else .ok (atoms chunk)

theorem flatten_consStretch (stretch : List Char) (atoms : List (List Char)) :
    (consStretch stretch atoms).flatten = stretch ++ atoms.flatten := by
  unfold consStretch
  split
  · next h => rw [h]; rfl
  · rfl

/-- Cutting loses nothing: the atoms, put together again, are the chunk. -/
theorem flatten_atoms (chunk : List Char) : (atoms chunk).flatten = chunk := by
  rw [atoms, flatten_consStretch]
  induction chunk with
  | nil => rfl
  | cons c rest ih =>
    unfold cut
    split
    · rw [List.flatten_cons, flatten_consStretch, ih]; rfl
    · rw [List.cons_append, ih]

end Reckoner.Chunk
