import LineCalc.Proofs.CommandLine.FrontEnds
import LineCalc.Proofs.Json.Document

/-!
# LineCalc.Proofs.CommandLine.Document

An evaluation that is written as a document.  The document is ASCII and stands
for one value by the grammar of JSON texts, an object that says how the
evaluation ended: `runEval_json`.  JSON has no numbers that are not finite, so
such a value is a text, and whatever the outcome is, all numbers in the
document are finite.
-/

namespace LineCalc.CommandLine

open Binary64 Decimal

variable {text : List Char} {x : Float}

/-- The name of a double that is not finite. -/
def specialName (x : Float) : String :=
  if infinity < pattern x then "NaN" else if isNegative x then "-Infinity" else "Infinity"

/-- A value that is no number is displayed by its name. -/
theorem display_of_not_finite (h : isFinite x = false) :
    String.ofList (display x) = specialName x := by
  have hn : ¬ pattern x < infinity := of_decide_eq_false h
  have hdisplay : display x = Layout.document.write x := by simp [display, whole?, h]
  rw [hdisplay, Layout.write, specialName, Layout.writeMagnitude, if_neg hn]
  split
  · rfl
  · cases isNegative x <;> rfl

/-- An object that says how an evaluation ended. -/
def outcomeObject (text : List Char) (exit : Nat) (value error : Json) : Json :=
  .object [("expression", .text (String.ofList text)), ("ok", .bool (exit = 0)), ("value", value),
    ("error", error)]

/-- The document of an outcome holds finite numbers only. -/
theorem allFinite_outcomeObject (s : Settings) (text : List Char) :
    Json.allFinite (outcomeObject text (Answer.toLine s text).exit (Answer.toLine s text).value
      (Answer.toLine s text).error) = true := by
  rw [Answer.toLine]
  cases Line.evaluate s text with
  | error f => rfl
  | ok x =>
      simp only [Answer.ofOutcome]
      split
      · next h => simpa [outcomeObject, Json.allFinite, Json.fieldsFinite] using h
      · rfl

/-- What is written where neither the tokens nor the expression are asked for: the document and
nothing else. -/
theorem runEval_document (policy : Policy) (text : List Char) :
    runEval ⟨true, false, false, policy⟩ text =
      ⟨(Answer.toLine policy.settings text).exit,
        String.ofList (Json.writeAt 0 (outcomeObject text (Answer.toLine policy.settings text).exit
          (Answer.toLine policy.settings text).value
          (Answer.toLine policy.settings text).error)) ++ "\n"⟩ := by
  rw [runEval_eq]
  simp [partLines, written, Answer.last, outcomeObject, Json.document]

end LineCalc.CommandLine
