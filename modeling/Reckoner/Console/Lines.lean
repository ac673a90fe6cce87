/-
  Lines of a byte stream.

  A line ends at a line feed; a carriage return just before the line feed belongs to the ending.
  Bytes behind the last line feed are a line too, if there are any.  A line is text only if its
  bytes are UTF-8, and each line is judged on its own.
-/
import Reckoner.Text.Pieces

namespace Reckoner.Console

/-- The line feed. -/
def lineFeed : UInt8 := 10

/-- The carriage return. -/
def carriageReturn : UInt8 := 13

/-- A line that was ended by a line feed, without a carriage return at its end. -/
def withoutReturn (line : List UInt8) : List UInt8 :=
  if line.getLast? = some carriageReturn then line.dropLast else line

/-- The lines of a stream, without their endings. -/
def lines (bytes : List UInt8) : List (List UInt8) :=
  let pieces := Text.pieces lineFeed bytes
  pieces.dropLast.map withoutReturn ++ pieces.getLast?.toList.filter (· ≠ [])

/-- The text of a line, if its bytes are UTF-8. -/
def decode? (line : List UInt8) : Option String :=
  String.fromUTF8? ⟨line.toArray⟩

end Reckoner.Console
