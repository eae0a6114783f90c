import LineCalc.Cursor
import LineCalc.Reading
import LineCalc.Settings

/-!
# LineCalc.Line

A line from its text to its value: cut into tokens, read as an expression,
evaluated.  `Line.evaluate` ends with the first fault; `Line.attempt` keeps
the outcome together with the line and with what there is to report.
-/

namespace LineCalc.Line

/-- Why a line has no value. -/
inductive Fault where
  /-- The line is no expression. -/
  | reading (f : Reading.Fault)
  /-- A node has no value under the policy. -/
  | evaluation (s : Stop)

/-- The text of the error. -/
def Fault.message : Fault → String
  | reading f => f.message
  | evaluation s => s.message

/-- The tokens of a line. -/
def tokens (s : Settings) (text : List Char) : List Token := tokensOf s.trailingDot text

/-- The outcome of reading a line, and the failures on record. -/
def outcome (s : Settings) (text : List Char) : Except Reading.Fault Expr × List GrammarFault :=
  Reading.outcome s.limit (tokens s text)

/-- The expression of a line. -/
def read (s : Settings) (text : List Char) : Except Reading.Fault Expr := (outcome s text).1

/-- The value of an expression under the policy of the settings. -/
def valueOf (s : Settings) (e : Expr) : Except Fault Float :=
  (e.evaluate s.division).mapError .evaluation

/-- The value of a line. -/
def evaluate (s : Settings) (text : List Char) : Except Fault Float := do
  let e ← (read s text).mapError .reading
  valueOf s e

/-- An evaluation that ends in any case, together with what is logged of it. -/
structure Attempt where
  /-- The line. -/
  text : List Char
  /-- Its value, or why it has none. -/
  outcome : Except Fault Float
  /-- The failures of the reading, the last one first. -/
  reported : List GrammarFault

namespace Attempt

/-- Whether the line has a value. -/
def ok (a : Attempt) : Bool := a.outcome.isOk

/-- The value of the line, if it has one. -/
def value? (a : Attempt) : Option Float := a.outcome.toOption

/-- Why the line has no value, if it has none. -/
def fault? (a : Attempt) : Option Fault :=
  match a.outcome with
  | .ok _ => none
  | .error f => some f

end Attempt

/-- A line evaluated, whatever the outcome. -/
def attempt (s : Settings) (text : List Char) : Attempt :=
  let (e, reported) := outcome s text
  ⟨text, e.mapError .reading >>= valueOf s, reported⟩

/-- An attempt ends as the evaluation does. -/
theorem outcome_attempt (s : Settings) (text : List Char) :
    (attempt s text).outcome = evaluate s text := rfl

end LineCalc.Line
