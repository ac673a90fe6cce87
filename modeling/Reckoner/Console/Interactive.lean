/-
  Interactive runs.

  A run shows the terms of use and then, for each line, a prompt and what the line asks for.  It
  ends with the input, with a command to leave, or with the fatal failure; lines behind the one
  that ended it are not looked at.  A line that is no text ends the run too, but what the lines
  before it wrote and calculated stands.

  A `turn` is what happens behind one prompt.  The program takes its turns as the lines come in;
  `runLines` takes them over all lines of a stream.
-/
import Reckoner.Console.Command
import Reckoner.Console.Lines
import Reckoner.Console.Report

namespace Reckoner.Interactive

/-! ## One line -/

/-- What one line brings about. -/
structure Response where
  /-- What is added to the output. -/
  out : String
  /-- What is added to the error output. -/
  err : String
  /-- The session after the line. -/
  session : Session
  /-- The exit status, if the line ends the run. -/
  ending : Option Nat

/-- A line that shows a text. -/
def showing (session : Session) (text : String) : Response :=
  ⟨asLine text, "", session, none⟩

/-- What an expression brings about. -/
def calculate (session : Session) (expression : String) : Response :=
  match session.evaluateLine expression with
  | (.ok x, session) => showing session (Number.text x)
  | (.error failure, session) =>
    ⟨"", failure.report, session, if failure.isFatal then some failure.status else none⟩

/-- What a command brings about. -/
def obey (session : Session) : Command → Response
  | .exit => ⟨"", "", session, some 0⟩
  | .help => showing session Notice.help
  | .licence => showing session Notice.licence
  | .blank => ⟨"", "", session, none⟩
  | .calculate expression => calculate session expression

/-- What a line brings about. -/
def respond (session : Session) (line : String) : Response :=
  obey session (.parse line)

/-! ## Turns -/

/-- How a run ends. -/
inductive Ending where
  /-- With an exit status. -/
  | status (status : Nat)
  /-- With a line that is no text. -/
  | invalidText
deriving DecidableEq, Repr

/-- The exit status of a run that ends so. -/
def Ending.code : Ending → Nat
  | .status code => code
  | .invalidText => 1

/-- The last that is written to the error output before a run ends so. -/
def Ending.report : Ending → String
  | .status _ => ""
  | .invalidText => asLine ("I/O error: " ++ Notice.invalidText)

/-- What the bytes behind a prompt bring about. -/
structure Turn where
  /-- What is added to the output. -/
  out : String
  /-- What is added to the error output. -/
  err : String
  /-- The session after the line. -/
  session : Session
  /-- How the line ends the run, if it does. -/
  ending : Option Ending

/-- What the bytes of a line bring about.  If they are no text, the run ends with them. -/
def turn (session : Session) (bytes : List UInt8) : Turn :=
  match Console.decode? bytes with
  | none => ⟨"", "", session, some .invalidText⟩
  | some line =>
    let response := respond session line
    ⟨response.out, response.err, response.session, response.ending.map .status⟩

theorem turn_of_not_text {session : Session} {bytes : List UInt8}
    (h : Console.decode? bytes = none) :
    turn session bytes = ⟨"", "", session, some .invalidText⟩ := by
  rw [turn, h]

theorem turn_of_text {session : Session} {bytes : List UInt8} {line : String}
    (h : Console.decode? bytes = some line) :
    turn session bytes =
      ⟨(respond session line).out, (respond session line).err, (respond session line).session,
        (respond session line).ending.map .status⟩ := by
  rw [turn, h]

/-! ## Whole runs -/

/-- What a run leaves behind. -/
structure Run where
  /-- How it ends. -/
  ending : Ending
  /-- The output. -/
  out : String
  /-- The error output. -/
  err : String
  /-- The session at the end. -/
  session : Session
deriving DecidableEq

/-- The run over the lines that are left, from the next prompt on. -/
def runLines (session : Session) : List (List UInt8) → Run
  | [] => ⟨.status 0, Notice.prompt, "", session⟩
  | bytes :: rest =>
    let turn := turn session bytes
    match turn.ending with
    | some ending => ⟨ending, Notice.prompt ++ turn.out, turn.err, turn.session⟩
    | none =>
      let further := runLines turn.session rest
      ⟨further.ending, Notice.prompt ++ turn.out ++ further.out, turn.err ++ further.err,
        further.session⟩

/-- What is shown before the first prompt. -/
def banner : String := asLine (asLine Notice.licence)

/-- The run over a stream of bytes. -/
def run (session : Session) (input : List UInt8) : Run :=
  let further := runLines session (Console.lines input)
  { further with out := banner ++ further.out }

/-- What a run of the program leaves behind when nothing was calculated before. -/
def transcript (input : List UInt8) : Transcript :=
  let run := run .fresh input
  ⟨run.ending.code, run.out, run.err ++ run.ending.report⟩

/-! ## The first line of a run -/

/-- A line that is no text ends the run at its prompt. -/
theorem runLines_of_not_text {session : Session} {bytes : List UInt8}
    (h : Console.decode? bytes = none) (rest : List (List UInt8)) :
    runLines session (bytes :: rest) = ⟨.invalidText, Notice.prompt, "", session⟩ := by
  rw [runLines, turn_of_not_text h]
  rfl

/-- A line that is text ends the run or leaves the other lines to the session behind it. -/
theorem runLines_of_text {session : Session} {bytes : List UInt8} {line : String}
    (h : Console.decode? bytes = some line) (rest : List (List UInt8)) :
    runLines session (bytes :: rest) =
      match (respond session line).ending with
      | some status =>
        { ending := .status status
          out := Notice.prompt ++ (respond session line).out
          err := (respond session line).err
          session := (respond session line).session }
      | none =>
        let further := runLines (respond session line).session rest
        { further with
          out := Notice.prompt ++ (respond session line).out ++ further.out
          err := (respond session line).err ++ further.err } := by
  rw [runLines, turn_of_text h]
  cases (respond session line).ending with
  | some status => rfl
  | none => rfl

end Reckoner.Interactive
