/-
  Sessions: lines evaluated one after the other.

  All that one line leaves to the next is its answer, which `ans` then stands for.  A line that
  fails leaves nothing, so the answer before it stays.
-/
import Reckoner.Line.Tokens
import Reckoner.Term.Evaluation
import Reckoner.Token.Grouping

namespace Reckoner

/-- A reason why a line has no answer. -/
inductive Failure where
  /-- The line cannot be read. -/
  | line (cause : LineError)
  /-- What the line says has no value. -/
  | reduction (cause : ReductionError)
deriving DecidableEq

namespace Failure

/-- The wording of a failure. -/
def message : Failure → String
  | .line cause => cause.message
  | .reduction cause => cause.message

/-- Whether a failure ends the program in every mode: only zero over zero does. -/
def isFatal (failure : Failure) : Bool :=
  failure = .reduction (.domain .zeroOverZero)

/-- The exit status of a program that ends with a failure. -/
def status (failure : Failure) : Nat :=
  if failure.isFatal then 69 else 1

end Failure

/-- What one line leaves to the next. -/
structure Session where
  /-- The answer of the latest line that had one. -/
  lastAnswer : Option Float
deriving DecidableEq

namespace Session

/-- A session in which nothing has been calculated. -/
def fresh : Session := ⟨none⟩

/-- The answer of a line. -/
def answer (session : Session) (line : String) : Except Failure Float :=
  match Line.read session.lastAnswer line with
  | .error cause => .error (.line cause)
  | .ok tokens =>
    match Token.evaluate (Token.groupAll tokens) with
    | .error cause => .error (.reduction cause)
    | .ok x => .ok x

/-- The session after a line with a given outcome. -/
def after (session : Session) : Except Failure Float → Session
  | .ok x => ⟨some x⟩
  | .error _ => session

/-- Evaluates a line: its outcome, and the session after it. -/
def evaluateLine (session : Session) (line : String) : Except Failure Float × Session :=
  (session.answer line, session.after (session.answer line))

end Session

/-- The answer of an expression on its own. -/
def calculate (expression : String) : Except Failure Float :=
  Session.fresh.answer expression

end Reckoner
