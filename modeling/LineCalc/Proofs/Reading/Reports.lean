import LineCalc.Proofs.Reading.Course

/-!
# LineCalc.Proofs.Reading.Reports

What a reading puts on record.  A part of the grammar that fails inside others
is reported where it fails, and none of those around it reports it again; so,
however deep a course goes, it adds the one failure that it ends with, or
nothing (`Course.reported_eq`).  The record of a line is therefore known from
its outcome: `Reading.outcome_eq`.
-/

namespace LineCalc

open Reading

variable {room : Nat} {goal : Goal} {r r' : Reading} {out : Except Reading.Fault Expr}

/-- The failures that a reading with some outcome has reported. -/
def Reading.failures : Except Reading.Fault Expr → List GrammarFault
  | .error (.grammar f) => [f]
  | _ => []

/-- A course reports the failure that it ends with, once, and nothing else. -/
theorem Course.reported_eq (h : Course room goal r out r') :
    r'.reported = failures out ++ r.reported := by
  induction h with
  | number _ _ _ | unreadable _ _ _ | invalid _ _ _ | tooDeep _ _ | last _ _ => rfl
  | faultWithin _ _ _ ih | closed _ _ _ _ _ ih | unsigned _ _ _ ih | faultUnderSign _ _ _ ih
  | signed _ _ _ ih | faultFirst _ _ ih | faultNext _ _ _ _ ih | faultWhole _ ih
  | whole _ _ _ ih => exact ih
  | unclosed _ _ _ _ _ _ ih | leftOver _ _ _ ih => exact congrArg (List.cons _) ih
  | first _ _ _ ih ih' | next _ _ _ _ _ ih ih' => exact ih'.trans (congrArg _ ih)

namespace Reading

/-- The outcome of reading some tokens says what is on record. -/
theorem outcome_eq (limit : Nat) (ts : List Token) :
    outcome limit ts = (readTokens limit ts, failures (readTokens limit ts)) := by
  refine Prod.ext rfl ?_
  by_cases h : isLine ts = true
  · obtain ⟨r', hc⟩ := (readTokens_eq_iff h).mp rfl
    have hrun : Reader.runOn Reader.whole (.start limit ts) = (readTokens limit ts, r') :=
      hc.run rfl
    rw [outcome, ofTokens, if_pos h]
    simp only [hrun, hc.reported_eq]
    exact List.append_nil _
  · rw [readTokens, outcome, ofTokens, if_neg h]
    rfl

end Reading

end LineCalc
