import LineCalc.Proofs.Line.Outcome
import LineCalc.Proofs.Reading.Reports
import LineCalc.Proofs.Session.Isolation

/-!
# LineCalc.Proofs.Session.Log

The log of a session.  What is on record of a line follows from its outcome:
nothing if it has a value, the failure of its reading and then its fault if the
grammar is at fault, and its fault alone if a division is refused
(`Line.entries_attempt`).  The log of a session is the records of its
lines in order, between one for its beginning and one for its end, and it names
as faulty just those lines that are answered as no valid expression:
`Session.log_run`.
-/

namespace LineCalc

/-! ## the records of a line -/

namespace Line

/-- The record of a line that has a fault. -/
def faultEntry (text : List Char) (f : Fault) : Entry :=
  ⟨.line, "Expression error for " ++ Text.quote text ++ ": " ++ f.message⟩

/-- The records of a line that ends in some way. -/
def recordsOf (text : List Char) : Except Fault Float → List Entry
  | .ok _ => []
  | .error f =>
    match f with
    | .reading (.grammar g) => [⟨.reading, "Parse error: " ++ g.message⟩, faultEntry text f]
    | _ => [faultEntry text f]

/-- What is on record of a line is what its outcome says. -/
theorem entries_attempt (s : Settings) (text : List Char) :
    (attempt s text).entries = recordsOf text (evaluate s text) := by
  have hreported : (attempt s text).reported = Reading.failures (read s text) := by
    show (outcome s text).2 = _
    rw [outcome, Reading.outcome_eq]
    rfl
  rw [Attempt.entries, outcome_attempt, hreported]
  cases hread : read s text with
  | ok e =>
      rw [evaluate_of_read hread]
      cases e.evaluate s.division <;> rfl
  | error f =>
      rw [evaluate_of_read_error hread]
      cases f <;> rfl

/-- A line is answered as no valid expression exactly if it has a fault. -/
theorem answer_attempt_eq_iff (s : Settings) (text : List Char) :
    (attempt s text).answer = "Invalid Expression" ↔ ∃ f, evaluate s text = .error f := by
  rw [Attempt.answer, outcome_attempt]
  cases evaluate s text with
  | ok x =>
      refine iff_of_false (fun h => ?_) (by simp)
      have hfirst := congrArg (·.toList.head?) h
      simp at hfirst
  | error f => exact iff_of_true rfl ⟨f, rfl⟩

/-- Of the records of a line the one that names it is that of its fault. -/
theorem filter_recordsOf_error (text : List Char) (f : Fault) :
    (recordsOf text (.error f)).filter (·.reporter = .line) = [faultEntry text f] := by
  rcases f with f | stop
  · cases f <;> rfl
  · rfl

end Line

namespace Session

/-! ## the records of a session -/

/-- What happens at a line is logged as the records of the line. -/
theorem log_exchange (s : Settings) (text : List Char) :
    (exchange s text).filterMap Event.log? = (Line.attempt s text).entries := by
  simp [exchange, lineEvents, List.filterMap_cons, Event.log?, Function.comp_def]

/-- Whether a line is answered as no valid expression. -/
def isRefused (s : Settings) (text : List Char) : Bool :=
  (Line.attempt s text).answer = "Invalid Expression"

/-- The records that name a line name those that are answered as no valid expression, in order. -/
theorem exists_faulty (s : Settings) (texts : List (List Char)) :
    ∃ faulty : List (List Char × Line.Fault),
      faulty.map Prod.fst = texts.filter (isRefused s) ∧
      (∀ p ∈ faulty, Line.evaluate s p.1 = .error p.2) ∧
      (texts.flatMap fun text => (Line.attempt s text).entries).filter (·.reporter = .line) =
        faulty.map fun p => Line.faultEntry p.1 p.2 := by
  induction texts with
  | nil => exact ⟨[], rfl, by simp, rfl⟩
  | cons text texts ih =>
      obtain ⟨faulty, hlines, hfaults, hrecords⟩ := ih
      have hanswer := Line.answer_attempt_eq_iff s text
      rw [List.flatMap_cons, List.filter_append, hrecords, Line.entries_attempt]
      cases h : Line.evaluate s text with
      | ok x =>
          have hvalid : isRefused s text = false := by simp [isRefused, hanswer, h]
          refine ⟨faulty, ?_, hfaults, rfl⟩
          rw [hlines, List.filter_cons_of_neg (by simp [hvalid])]
      | error f =>
          have hrefused : isRefused s text = true := by simp [isRefused, hanswer, h]
          refine ⟨(text, f) :: faulty, ?_, List.forall_mem_cons.mpr ⟨h, hfaults⟩, ?_⟩
          · rw [List.map_cons, hlines, List.filter_cons_of_pos hrefused]
          · rw [Line.filter_recordsOf_error]
            rfl

end Session

end LineCalc
