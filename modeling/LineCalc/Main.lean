import LineCalc.CommandLine.Run

/-!
# LineCalc.Main

The program `textcalc`.  A session is held with the person at the input, one
prompt and one line at a time; every other command reads nothing.
-/

namespace LineCalc.Console

open CommandLine

/-- What the program shows as the version of the arithmetic, which is that of no library here. -/
def version : String := "NUMPY"

/-- Shows events: prompts and lines of output, and the log on the error output if that is asked
for. -/
def showEvents (verbose : Bool) (events : List Event) : IO Unit := do
  let out ← IO.getStdout
  for e in events do
    out.putStr (Session.shown e)
    if verbose then
      if let some entry := e.log? then
        IO.eprintln ("DEBUG " ++ entry.reporter.label ++ ": " ++ entry.message)
  out.flush

/-- Holds a session from its next prompt on, when some count of lines has been handled. -/
partial def converse (verbose : Bool) (s : Settings) (handled : Nat) : IO Unit := do
  showEvents verbose [.prompt s.prompt]
  let line ← (← IO.getStdin).getLine
  match Session.linesOf line.toList with
  | [] | [] :: _ => showEvents verbose (Session.closing handled)
  | text :: _ =>
    showEvents verbose (Session.lineEvents s text)
    converse verbose s (handled + 1)

/-- Shows what the program ends with, and gives the exit code. -/
def conclude (e : Ending) : IO UInt32 := do
  IO.print e.output
  if let some line := e.complaint? then IO.eprintln line
  return e.exit.toUInt32

/-- The program with its effects.  Only a session is shown as it goes on. -/
def run (args : List (List Char)) : IO UInt32 := do
  match Invocation.ofArguments args with
  | .ok ⟨verbose, .repl policy⟩ =>
    showEvents verbose [Session.opening]
    converse verbose policy.settings 0
    return (exitCode true).toUInt32
  | _ => conclude (program (.ofInput version []) args)

end LineCalc.Console

/-- The program as it is called. -/
def main (args : List String) : IO UInt32 := LineCalc.Console.run (args.map String.toList)
