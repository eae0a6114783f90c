import LineCalc.Proofs.Line.Derived
import LineCalc.Proofs.Line.Outcome
import LineCalc.Proofs.Results
import LineCalc.SelfCheck

/-!
# LineCalc.Proofs.SelfCheck.Report

When there is a report of the self-check.  The evaluator must not fail on
`0/0`, and on the lines that are to be refused not by another error than the
grammar's: `SelfCheck.exists_report_iff`.  The evaluator of the calculator is
such a one: `SelfCheck.exists_report_evaluator`.
-/

namespace LineCalc

/-! ## the evaluator -/

namespace Line

variable {f : EvaluatorFault} {text : List Char}

/-- Under the standard settings only the grammar refuses a line. -/
theorem exists_grammar_of_evaluator (h : evaluator text = .error f) :
    ∃ message, f = .grammar message := by
  rw [evaluator] at h
  obtain ⟨x, hx⟩ | ⟨g, hg⟩ | ⟨hstrict, -⟩ := evaluate_cases .standard text
  · rw [hx] at h
    cases h
  · rw [hg] at h
    cases h
    exact ⟨g.message, rfl⟩
  · cases hstrict

/-- One number over another has the quotient of their values. -/
theorem evaluator_quotient {a b : List Char} {x y : Float} (ha : isNumber true a = true)
    (hb : isNumber true b = true) (hx : Decimal.numeral? a = some x)
    (hy : Decimal.numeral? b = some y) : evaluator (a ++ '/' :: b) = .ok (x / y) := by
  have hx' : Token.value ⟨.number, a⟩ = .ok x := by simp [Token.value, hx]
  have hy' : Token.value ⟨.number, b⟩ = .ok y := by simp [Token.value, hy]
  have hd : Derives Settings.standard.limit .addition
      ([⟨.number, a⟩] ++ Kind.slash.token :: [⟨.number, b⟩])
      (.binary .div (.literal x a) (.literal y b)) :=
    .term (.multiply (.factor (.unsigned (.number rfl hx'))) rfl (.unsigned (.number rfl hy')))
  have hv : ∀ t ∈ [⟨.number, a⟩] ++ Kind.slash.token :: [⟨.number, b⟩],
      t.isValid Settings.standard.trailingDot = true := by
    simpa using ⟨ha, by decide, hb⟩
  have hline : a ++ '/' :: b = lexemes ([⟨.number, a⟩] ++ Kind.slash.token :: [⟨.number, b⟩]) := by
    simp [lexemes, Kind.token, Kind.symbol]
  rw [evaluator, hline, evaluate_of_read (read_lexemes hd hv), Expr.evaluate,
    Expr.evaluateWith_eq_denote, show Settings.standard.division = .ieee from rfl,
    Expr.denote_ieee]
  rfl

end Line

/-! ## the report -/

namespace SelfCheck

variable {version : String} {evaluate : Evaluator} {kinds : List Kind}

/-- The check of `0/0` is made exactly if there is a value. -/
theorem exists_checkNotANumber_iff :
    (∃ finding, checkNotANumber evaluate = .ok finding) ↔ ∃ x, evaluate "0/0".toList = .ok x := by
  rw [checkNotANumber]
  cases evaluate "0/0".toList with
  | ok x => exact ⟨fun _ => ⟨x, rfl⟩, fun _ => ⟨_, rfl⟩⟩
  | error f => exact ⟨nofun, nofun⟩

/-- The check of a refusal is made unless the evaluation ends with a fault of another kind. -/
theorem exists_checkRefused_iff (name text : String) :
    (∃ finding, checkRefused evaluate name text = .ok finding) ↔
      ∀ f, evaluate text.toList = .error f → ∃ message, f = .grammar message := by
  rw [checkRefused]
  cases evaluate text.toList with
  | ok x => exact ⟨fun _ => nofun, fun _ => ⟨_, rfl⟩⟩
  | error f =>
      cases f with
      | grammar message =>
          exact ⟨fun _ f h => ⟨message, (Except.error.inj h).symm⟩, fun _ => ⟨_, rfl⟩⟩
      | other kind message =>
          refine ⟨nofun, fun h => ?_⟩
          obtain ⟨_, hf⟩ := h _ rfl
          cases hf

/-- The checks one after another. -/
theorem findings_eq_ok_iff {fs : List Finding} : findings version evaluate kinds = .ok fs ↔
    ∃ notANumber refused, checkNotANumber evaluate = .ok notANumber ∧
      List.Forall₂ (fun c f => checkRefused evaluate c.1 c.2 = .ok f) refusedCases refused ∧
      fs = checkArithmetic version :: checkBlank kinds ::
        (valueCases.map (checkValue evaluate) ++ notANumber :: refused) := by
  rw [findings, bind_eq_ok_iff]
  refine exists_congr fun notANumber => ?_
  simp only [bind_eq_ok_iff, exists_and_left, and_congr_right_iff, mapM_eq_ok_iff]
  refine fun _ => exists_congr fun refused => and_congr_right fun _ => ?_
  exact ⟨fun h => (Except.ok.inj h).symm, fun h => by rw [h]; rfl⟩

/-- A report is that of the findings. -/
theorem run_eq_ok_iff {report : Report} : run version evaluate kinds = .ok report ↔
    ∃ fs, findings version evaluate kinds = .ok fs ∧ report = .ofFindings fs := by
  rw [run]
  cases findings version evaluate kinds <;> simp [Except.map, eq_comm]

/-- There is a report exactly if the evaluator has a value for `0/0` and refuses the lines that it
is to refuse, as far as it does, by the grammar. -/
theorem exists_report_iff (version : String) (evaluate : Evaluator) (kinds : List Kind) :
    (∃ report, run version evaluate kinds = .ok report) ↔
      (∃ x, evaluate "0/0".toList = .ok x) ∧
        ∀ c ∈ refusedCases, ∀ f, evaluate c.2.toList = .error f →
          ∃ message, f = .grammar message := by
  have hrefused : (∃ fs, refusedCases.mapM (fun c => checkRefused evaluate c.1 c.2) = .ok fs) ↔ _ :=
    exists_mapM_eq_ok_iff
  simp only [exists_checkRefused_iff, mapM_eq_ok_iff] at hrefused
  rw [← exists_checkNotANumber_iff, ← hrefused]
  constructor
  · rintro ⟨report, h⟩
    obtain ⟨fs, hfs, -⟩ := run_eq_ok_iff.mp h
    obtain ⟨notANumber, refused, hnan, hall, -⟩ := findings_eq_ok_iff.mp hfs
    exact ⟨⟨notANumber, hnan⟩, refused, hall⟩
  · rintro ⟨⟨notANumber, hnan⟩, refused, hall⟩
    exact ⟨_, run_eq_ok_iff.mpr
      ⟨_, findings_eq_ok_iff.mpr ⟨notANumber, refused, hnan, hall, rfl⟩, rfl⟩⟩

/-- The calculator's own evaluator is one that the self-check has a report of. -/
theorem exists_report_evaluator (version : String) (kinds : List Kind) :
    ∃ report, run version Line.evaluator kinds = .ok report := by
  obtain ⟨zero, hzero⟩ : ∃ x, Decimal.numeral? ['0'] = some x :=
    Decimal.exists_numeral (show isNumber true ['0'] = true from rfl)
  have hquotient := Line.evaluator_quotient (a := ['0']) (b := ['0']) rfl rfl hzero hzero
  have htext : ['0'] ++ '/' :: ['0'] = "0/0".toList := by decide
  rw [htext] at hquotient
  exact (exists_report_iff _ _ _).mpr
    ⟨⟨_, hquotient⟩, fun _ _ _ => Line.exists_grammar_of_evaluator⟩

end SelfCheck

end LineCalc
