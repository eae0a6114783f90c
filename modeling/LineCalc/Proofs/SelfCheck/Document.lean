import LineCalc.Proofs.Json.Finite
import LineCalc.Proofs.SelfCheck.Verdict

/-!
# LineCalc.Proofs.SelfCheck.Document

The report of a self-check as a document.  A check shows a value as it is, also
one that is not finite, for which JSON has no word.  So what is written is a
JSON text exactly if all the values shown are finite, and then it stands for
the report: `validate_json_iff_finite`.  One of the lines checked is `1/0`,
and the calculator's own report is no JSON text: `validate_json_oneOverZero`.
-/

namespace LineCalc.SelfCheck

open Binary64 CommandLine

variable {version : String} {evaluate : Evaluator} {kinds : List Kind} {f : Finding}
variable {report : Report}

/-! ## the values shown -/

/-- The lines whose values are shown in a report. -/
def shownLines : List (List Char) :=
  valueCases.map (·.text.toList) ++ refusedCases.map (·.2.toList)

/-- Whether the values shown are finite. -/
def ShowsFinite (evaluate : Evaluator) : Prop :=
  ∀ line ∈ shownLines, ∀ x, evaluate line = .ok x → isFinite x = true

/-- The details of a value's check are finite where the value is. -/
theorem fieldsFinite_checkValue (evaluate : Evaluator) (c : ValueCase) :
    Json.fieldsFinite (checkValue evaluate c).details = true ↔
      ∀ x, evaluate c.text.toList = .ok x → isFinite x = true := by
  rw [checkValue]
  cases evaluate c.text.toList <;> simp [Finding.of, Json.fieldsFinite, Json.allFinite]

/-- The details of a refusal's check are finite where there is no value or a finite one. -/
theorem fieldsFinite_checkRefused {name text : String}
    (h : checkRefused evaluate name text = .ok f) :
    Json.fieldsFinite f.details = true ↔
      ∀ x, evaluate text.toList = .ok x → isFinite x = true := by
  rw [checkRefused] at h
  split at h
  · next message hf =>
    obtain rfl := Except.ok.inj h
    simp [hf, Finding.of, Json.fieldsFinite, Json.allFinite]
  · cases h
  · next x hx =>
    obtain rfl := Except.ok.inj h
    simp [hx, Finding.of, Json.fieldsFinite, Json.allFinite]

/-- The details of the check of `0/0` hold no number. -/
theorem fieldsFinite_checkNotANumber (h : checkNotANumber evaluate = .ok f) :
    Json.fieldsFinite f.details = true := by
  obtain ⟨x, -, hf⟩ := bind_eq_ok_iff.mp h
  obtain rfl := Except.ok.inj hf
  rfl

/-- The doubles in a report are those of the lines whose values are shown. -/
theorem fieldsFinite_findings {fs : List Finding} (h : findings version evaluate kinds = .ok fs) :
    (∀ f ∈ fs, Json.fieldsFinite f.details = true) ↔ ShowsFinite evaluate := by
  obtain ⟨notANumber, refused, hnan, hrefused, rfl⟩ := findings_eq_ok_iff.mp h
  have hiff := forall_mem_iff_of_forall₂ hrefused fun c _ f hf =>
    (fieldsFinite_checkRefused hf).symm
  simp only [List.forall_mem_cons, List.forall_mem_append, List.forall_mem_map, ShowsFinite,
    shownLines, fieldsFinite_checkValue, hiff, fieldsFinite_checkNotANumber hnan, true_and]
  exact ⟨fun h => h.2.2, fun h => ⟨rfl, rfl, h⟩⟩

theorem allFinite_toJson (report : Report) : Json.allFinite report.toJson = true ↔
    ∀ check ∈ report.checks, Json.fieldsFinite check.2 = true := by
  have herrors : Json.itemsFinite (report.errors.map .text) = true := by
    rw [Json.itemsFinite_iff, List.forall_mem_map]
    exact fun _ _ => rfl
  simp only [Report.toJson, Json.allFinite, Json.fieldsFinite, herrors, Bool.true_and,
    Bool.and_true]
  rw [Json.fieldsFinite_iff, List.forall_mem_map]
  simp only [Json.allFinite]

/-- The numbers of a report are finite where those that the evaluator shows it are. -/
theorem allFinite_report (h : run version evaluate kinds = .ok report) :
    Json.allFinite report.toJson = true ↔ ShowsFinite evaluate := by
  obtain ⟨fs, hfs, rfl⟩ := run_eq_ok_iff.mp h
  rw [allFinite_toJson, Report.ofFindings, List.forall_mem_map]
  exact fieldsFinite_findings hfs

/-! ## the document -/

theorem output_runValidate_document (report : Report) :
    (runValidate true report).output = report.toJson.document ++ "\n" := by
  simp [runValidate, validateLines, written]

/-- The document of the report, and the end of its line. -/
theorem toList_output_runValidate (report : Report) :
    (runValidate true report).output.toList = Json.writeAt 0 report.toJson ++ ['\n'] := by
  simp [output_runValidate_document, Json.document]

theorem isGap_lineEnd : Json.IsGap ['\n'] := Json.isGap_newLine 0

/-- What is printed is a document exactly if the evaluator shows finite numbers, and then of the
report. -/
theorem isDocument_output_iff (h : run version evaluate kinds = .ok report) (v : Json) :
    Json.IsDocument (runValidate true report).output.toList v ↔
      ShowsFinite evaluate ∧ v = report.toJson := by
  rw [toList_output_runValidate, Json.isDocument_writeAt_iff_allFinite 0 isGap_lineEnd,
    allFinite_report h]

/-- A self-check that is asked for as a document writes its report on lines of ASCII, and nothing
else.  What is written is a JSON text exactly if all the values shown are finite.  It then stands
for the report and for nothing else, and is read as the report; otherwise it is not read at all,
since a value that is not finite is written as a word that JSON does not have. -/
theorem validate_json_iff_finite (h : run version evaluate kinds = .ok report) :
    (∀ input args quiet, Invocation.ofArguments args = .ok ⟨quiet, .validate true⟩ →
      program ⟨input, evaluate, kinds, version⟩ args = .run (runValidate true report)) ∧
    (runValidate true report).output = report.toJson.document ++ "\n" ∧
    Json.IsAscii (runValidate true report).output.toList ∧
    (∀ v, Json.IsDocument (runValidate true report).output.toList v ↔
      ShowsFinite evaluate ∧ v = report.toJson) ∧
    (ShowsFinite evaluate →
      Json.read? (runValidate true report).output.toList = some report.toJson) ∧
    (¬ ShowsFinite evaluate → Json.read? (runValidate true report).output.toList = none) := by
  refine ⟨fun input args quiet hargs => ?_, output_runValidate_document report, ?_,
    isDocument_output_iff h, fun hfinite => ?_, fun hfinite => ?_⟩
  · rw [program_of_validate hargs, h]
  · rw [toList_output_runValidate, Json.isAscii_append]
    exact ⟨Json.isAscii_writeAt 0 _, by simp⟩
  · rw [toList_output_runValidate, Json.read?_writeAt 0 _ isGap_lineEnd,
      if_pos ((allFinite_report h).mpr hfinite)]
  · rw [toList_output_runValidate, Json.read?_writeAt 0 _ isGap_lineEnd,
      if_neg (mt (allFinite_report h).mp hfinite)]

/-- A calculator that finds one half everywhere fails the self-check, and the report of that can be
read. -/
theorem validate_json_half : ∃ report, run "1.26.4" (fun _ => .ok 0.5) [.eof] = .ok report ∧
    program ⟨[], fun _ => .ok 0.5, [.eof], "1.26.4"⟩ (["validate", "--json"].map String.toList) =
      .run (runValidate true report) ∧
    Json.read? (runValidate true report).output.toList = some report.toJson := by
  obtain ⟨report, h⟩ : ∃ report, run "1.26.4" (fun _ => .ok 0.5) [.eof] = .ok report :=
    (exists_report_iff _ _ _).mpr ⟨⟨_, rfl⟩, fun _ _ f hf => by cases hf⟩
  obtain ⟨hprogram, -, -, -, hread, -⟩ := validate_json_iff_finite h
  refine ⟨report, h, hprogram [] _ false rfl, hread fun _ _ x hx => ?_⟩
  obtain rfl := Except.ok.inj hx
  decide

/-- The calculator has an infinity for `1/0`. -/
theorem not_showsFinite_evaluator : ¬ ShowsFinite Line.evaluator := by
  intro h
  have hone : Decimal.numeral? ['1'] = some 1.0 := by decide +kernel
  have hzero : Decimal.numeral? ['0'] = some 0.0 := by decide +kernel
  have hquotient := Line.evaluator_quotient (a := ['1']) (b := ['0']) rfl rfl hone hzero
  have hfinite := h (['1'] ++ '/' :: ['0']) (by decide) _ hquotient
  exact absurd hfinite (by decide)

/-- The calculator's own report is written, and is no JSON text. -/
theorem validate_json_oneOverZero : ∃ report, run "1.26.4" Line.evaluator blankKinds = .ok report ∧
    program (.ofInput "1.26.4" []) (["validate", "--json"].map String.toList) =
      .run (runValidate true report) ∧
    ∀ v, ¬ Json.IsDocument (runValidate true report).output.toList v := by
  obtain ⟨report, h⟩ := exists_report_evaluator "1.26.4" blankKinds
  have hargs : Invocation.ofArguments (["validate", "--json"].map String.toList) =
      .ok ⟨false, .validate true⟩ := rfl
  refine ⟨report, h, ?_, fun v hv => ?_⟩
  · rw [program_of_validate hargs, World.ofInput, h]
  · exact not_showsFinite_evaluator ((isDocument_output_iff h v).mp hv).1

end LineCalc.SelfCheck
