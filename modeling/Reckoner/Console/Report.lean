/-
  How outcomes are written.

  An answer goes to the output, a failure to the error output, each on lines of its own.  A fatal
  failure is followed by a farewell.
-/
import Reckoner.Console.Notice
import Reckoner.Session

namespace Reckoner

/-- A text as a line of its own. -/
def asLine (text : String) : String := text ++ "\n"

/-- What is written about a failure. -/
def Failure.report (failure : Failure) : String :=
  if failure.isFatal then asLine failure.message ++ asLine Notice.farewell
  else asLine failure.message

/-- What a finished run leaves behind. -/
structure Transcript where
  /-- The exit status. -/
  status : Nat
  /-- The output. -/
  out : String
  /-- The error output. -/
  err : String
deriving DecidableEq, Repr

/-- A run that shows a text and succeeds. -/
def Transcript.showing (text : String) : Transcript := ⟨0, asLine text, ""⟩

/-- The run that evaluates one expression. -/
def runOnce (expression : String) : Transcript :=
  match calculate expression with
  | .ok x => .showing (Number.text x)
  | .error failure => ⟨failure.status, "", failure.report⟩

end Reckoner
