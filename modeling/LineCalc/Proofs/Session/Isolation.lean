import LineCalc.Proofs.Line.Outcome
import LineCalc.Proofs.Session.Output

/-!
# LineCalc.Proofs.Session.Isolation

A session handles each line by itself.  There is one prompt for each line that
is answered and one more (`Session.prompts_run`), and a session over lines in
front of others is what these lines make and then the session over the others
(`Session.run_append`): no line, however it fails, ends a session or has a
part in the answer to another.
-/

namespace LineCalc.Session

variable {s : Settings} {texts before : List (List Char)}

/-- The lines handled are those answered. -/
theorem handled_run (s : Settings) (texts : List (List Char)) :
    (run s texts).handled = (answered texts).length := by
  rw [run, continued_eq, Nat.zero_add]

/-- Each line is asked for once. -/
theorem prompts_exchange (s : Settings) (text : List Char) :
    (exchange s text).filterMap Event.prompt? = [s.prompt] := by
  simp [exchange, lineEvents, List.filterMap_cons, Event.prompt?, Function.comp_def]

/-- The input is asked for each line that is answered, and once more. -/
theorem prompts_run (s : Settings) (texts : List (List Char)) :
    (run s texts).prompts = List.replicate ((answered texts).length + 1) s.prompt := by
  have hlast : (Event.prompt s.prompt :: closing (answered texts).length).filterMap Event.prompt? =
      [s.prompt] := rfl
  rw [prompts, events_run, List.filterMap_cons_none rfl, List.filterMap_append, hlast,
    List.filterMap_flatMap, List.replicate_succ']
  simp only [prompts_exchange, ← List.map_eq_flatMap, List.map_const']

/-- A session over lines in front of others goes on as one over the others. -/
theorem run_append (h : ∀ text ∈ before, text ≠ []) :
    (run s (before ++ texts)).handled = before.length + (run s texts).handled ∧
      (run s (before ++ texts)).output = before.flatMap (lineOutput s) ++ (run s texts).output := by
  rw [handled_run, handled_run, output_run, output_run, answered_append h]
  simp

/-- What is written for a line is the display of its value, or that it is no valid expression. -/
theorem lineOutput_cases (s : Settings) (text : List Char) :
    (∃ x, (Line.attempt s text).value? = some x ∧
      lineOutput s text = ["= " ++ String.ofList (Decimal.display x), ""]) ∨
    ((Line.attempt s text).ok = false ∧ lineOutput s text = ["Invalid Expression", ""]) := by
  rw [lineOutput, Line.Attempt.answer, Line.outcome_attempt]
  cases h : Line.evaluate s text with
  | ok x => exact .inl ⟨x, (Line.attempt_of_ok h).2.1, rfl⟩
  | error f => exact .inr ⟨(Line.attempt_of_error h).1, rfl⟩

end LineCalc.Session
