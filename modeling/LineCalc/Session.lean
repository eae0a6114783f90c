import LineCalc.Decimal.Layout
import LineCalc.Line

/-!
# LineCalc.Session

A session of the read-loop: a prompt before each line, an answer and an empty
line after it, until an empty line or the end of the input.  A session is the
record of all this: how many lines were handled, and the prompts, the output
and the log as events in the order of time.  `Session.run` is the session
over a list of lines.
-/

namespace LineCalc

/-- The parts of the program that write to the log. -/
inductive Reporter where
  | loop
  | reading
  | line
  deriving DecidableEq

/-- The name of a part in the log. -/
def Reporter.label : Reporter → String
  | loop => "textcalc.repl"
  | reading => "textcalc.parser"
  | line => "textcalc.pipeline"

/-- An entry of the log. -/
structure Entry where
  reporter : Reporter
  message : String
  deriving DecidableEq

namespace Line.Attempt

/-- The line that a session answers with. -/
def answer (a : Attempt) : String :=
  match a.outcome with
  | .ok x => "= " ++ String.ofList (Decimal.display x)
  | .error _ => "Invalid Expression"

/-- What is reported of a line: the failures of its reading, then its fault. -/
def entries (a : Attempt) : List Entry :=
  a.reported.reverse.map (fun f => ⟨.reading, "Parse error: " ++ f.message⟩) ++
    match a.outcome with
    | .ok _ => []
    | .error f =>
      [⟨.line, "Expression error for " ++ Text.quote a.text ++ ": " ++ f.message⟩]

end Line.Attempt

/-- What happens in a session. -/
inductive Event where
  | prompt (p : Json)
  | output (line : String)
  | log (e : Entry)

namespace Event

/-- The prompt of an event that is one. -/
def prompt? : Event → Option Json
  | prompt p => some p
  | _ => none

/-- The line of an event that is output. -/
def output? : Event → Option String
  | output line => some line
  | _ => none

/-- The entry of an event that goes to the log. -/
def log? : Event → Option Entry
  | log e => some e
  | _ => none

end Event

/-- A session, from its opening to its end. -/
structure Session where
  /-- How many lines have been handled. -/
  handled : Nat
  /-- What happened, in the order of time. -/
  events : List Event

namespace Session

/-! ## views -/

/-- The prompts of a session, in the order of time. -/
def prompts (session : Session) : List Json := session.events.filterMap Event.prompt?

/-- The lines of output of a session, in the order of time. -/
def output (session : Session) : List String := session.events.filterMap Event.output?

/-- The log of a session, in the order of time. -/
def log (session : Session) : List Entry := session.events.filterMap Event.log?

/-! ## the loop -/

/-- The log tells that a session begins. -/
def opening : Event := .log ⟨.loop, "Starting read-loop"⟩

/-- The events of a line: what is reported of it, its answer, and an empty line. -/
def lineEvents (s : Settings) (text : List Char) : List Event :=
  let a := Line.attempt s text
  a.entries.map .log ++ [.output a.answer, .output ""]

/-- A session takes its leave, and the log tells how many lines it has handled. -/
def closing (handled : Nat) : List Event :=
  [.output "Terminating...",
   .log ⟨.loop, "Read-loop finished after " ++ toString handled ++ " expressions"⟩]

/-- A session from its next prompt on, over the lines that are left of its input, when some count
of lines has been handled. -/
def continued (s : Settings) (handled : Nat) : List (List Char) → Session
  | [] => ⟨handled, .prompt s.prompt :: closing handled⟩
  | text :: texts =>
    if text.isEmpty then ⟨handled, .prompt s.prompt :: closing handled⟩
    else
      let rest := continued s (handled + 1) texts
      ⟨rest.handled, .prompt s.prompt :: (lineEvents s text ++ rest.events)⟩

/-- A session over lines of input, up to the first empty one. -/
def run (s : Settings) (texts : List (List Char)) : Session :=
  let session := continued s 0 texts
  ⟨session.handled, opening :: session.events⟩

/-! ## texts -/

/-- The lines of a text, each without its line feed; the last one may lack it. -/
def linesOf (text : List Char) : List (List Char) := collect [] text
where
  /-- The lines of a text that continues a line, of which the characters so far are given, the
  last one first. -/
  collect (current : List Char) : List Char → List (List Char)
    | [] => if current.isEmpty then [] else [current.reverse]
    | c :: cs => if c = '\n' then current.reverse :: collect [] cs else collect (c :: current) cs

/-- A prompt as it is shown, which need not be a text. -/
def promptText : Json → String
  | .text s => s
  | v => v.inline

/-- An event as it is shown: a prompt leaves the line open, and the log is not shown. -/
def shown : Event → String
  | .prompt p => promptText p
  | .output line => line ++ "\n"
  | .log _ => ""

/-- All that a session writes on the output, prompts and lines. -/
def transcript (session : Session) : String := String.join (session.events.map shown)

end Session

end LineCalc
