/-
  The program.

  Reads the command line and the standard input, writes what the library answers, and exits with
  its status.  An interactive run takes one line at a time, so that each is answered before the
  next is read.
-/
import Reckoner.Console.Arguments

namespace Reckoner

open Console (lineFeed withoutReturn)

/-- The bytes of the next line, unless the input has ended. -/
partial def readLine (stdin : IO.FS.Stream) (sofar : Array UInt8) :
    IO (Option (List UInt8)) := do
  let next ← stdin.read 1
  match next.data[0]? with
  | none => return if sofar.isEmpty then none else some sofar.toList
  | some byte =>
    if byte = lineFeed then return some (withoutReturn sofar.toList)
    else readLine stdin (sofar.push byte)

/-- Takes turns until the run ends, and gives the exit status. -/
partial def interact (stdin stdout stderr : IO.FS.Stream) (session : Session) : IO Nat := do
  stdout.putStr Notice.prompt
  stdout.flush
  match ← readLine stdin #[] with
  | none => return 0
  | some bytes =>
    let turn := Interactive.turn session bytes
    stdout.putStr turn.out
    stderr.putStr turn.err
    match turn.ending with
    | some ending =>
      stderr.putStr ending.report
      return ending.code
    | none => interact stdin stdout stderr turn.session

/-- Does what the command line asks for, and gives the exit status. -/
def runProgram (arguments : List String) : IO Nat := do
  let stdout ← IO.getStdout
  let stderr ← IO.getStderr
  match Request.parse arguments with
  | .interact =>
    stdout.putStr Interactive.banner
    interact (← IO.getStdin) stdout stderr .fresh
  | request =>
    let transcript := request.transcript []
    stdout.putStr transcript.out
    stdout.flush
    stderr.putStr transcript.err
    return transcript.status

end Reckoner

/-- The entry point of the program. -/
def main (arguments : List String) : IO UInt32 := do
  return (← Reckoner.runProgram arguments).toUInt32
