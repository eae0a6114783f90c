import LineCalc.CommandLine.Run
import LineCalc.Proofs.SelfCheck.Report

/-!
# LineCalc.Proofs.SelfCheck.Verdict

What the report of a self-check says.  A single check is told twice, in the
field `ok` of its details and, if that is false, in an error that begins with
the line checked; the two always agree (`Finding.Agrees`).  So the errors
of a report are those of its failed checks, one for each and in their order,
and the report is a good one exactly if no check has failed
(`Report.Tells`).  This holds whatever the evaluator does, and where it ends
the self-check without a report, nothing is written:
`SelfCheck.validate_verdict`.
-/

namespace LineCalc.SelfCheck

variable {version : String} {evaluate : Evaluator} {kinds : List Kind}
variable {name text error : String} {f : Finding} {fs : List Finding}
variable {details : List (String × Json)}

/-! ## single checks -/

/-- The names of the checks, in the order of the report. -/
def checkNames : List String :=
  ["numpy", "scan_blank", "precedence", "parentheses", "left_associativity", "unary_minus",
    "decimal", "divide_by_zero", "zero_over_zero", "double_sign", "unbalanced_paren",
    "trailing_garbage", "unknown_character"]

/-- What an error says first, by the name of its check. -/
def openings : List (String × String) :=
  ("scan_blank", "Blank input scanned to [") ::
    (valueCases.map (fun c => (c.name, Text.quote c.text.toList)) ++
      ("zero_over_zero", "'0/0' evaluated to ") ::
        refusedCases.map fun c => (c.1, Text.quote c.2.toList))

/-- An error of the check of a name. -/
def Concerns (name error : String) : Prop :=
  ∃ opening more, (name, opening) ∈ openings ∧ error = opening ++ more

/-- No opening is the beginning of another, so an error concerns one check at most. -/
theorem Concerns.unique {other : String} (h : Concerns name error) (h' : Concerns other error) :
    name = other := by
  have hopenings : ∀ p ∈ openings, ∀ q ∈ openings, p.2.toList <+: q.2.toList → p.1 = q.1 := by
    decide
  obtain ⟨opening, more, hmem, rfl⟩ := h
  obtain ⟨opening', more', hmem', he⟩ := h'
  have hlists : opening.toList ++ more.toList = opening'.toList ++ more'.toList := by
    rw [← String.toList_append, he, String.toList_append]
  obtain hle | hle := Nat.le_total opening.toList.length opening'.toList.length
  · exact hopenings _ hmem _ hmem' (List.prefix_of_prefix_length_le
      ⟨more.toList, hlists⟩ ⟨more'.toList, rfl⟩ hle)
  · exact (hopenings _ hmem' _ hmem (List.prefix_of_prefix_length_le
      ⟨more'.toList, rfl⟩ ⟨more.toList, hlists⟩ hle)).symm

/-- The field `ok` of a check, if it has one. -/
def ok? (details : List (String × Json)) : Option Json := Json.fieldIn? "ok" details

/-- A finding has an error, which is its own, if its field `ok` is false, and otherwise none. -/
def Finding.Agrees (f : Finding) : Prop :=
  match f.failure with
  | none => ∀ v, ok? f.details = some v → v = .bool true
  | some error => ok? f.details = some (.bool false) ∧ Concerns f.name error

/-- A finding agrees if its failure is there exactly where its check is not passed. -/
theorem agrees_of {ok : Bool} {failure : String}
    (hok : ok? (("ok", .bool ok) :: details) = some (.bool ok))
    (hfailure : ok = false → Concerns name failure) :
    (Finding.of name ok details failure).Agrees := by
  cases ok with
  | true =>
      intro v hv
      exact Option.some.inj (hv.symm.trans hok)
  | false => exact ⟨hok, hfailure rfl⟩

theorem agrees_checkArithmetic (version : String) : (checkArithmetic version).Agrees := by
  intro v hv
  cases hv

theorem agrees_checkBlank (kinds : List Kind) : (checkBlank kinds).Agrees :=
  agrees_of rfl fun _ => ⟨_, _, List.mem_cons_self, String.append_assoc⟩

/-- The check of a value agrees with its failure. -/
theorem agrees_checkValue {c : ValueCase} (hc : c ∈ valueCases) :
    (checkValue evaluate c).Agrees := by
  have hopening : (c.name, Text.quote c.text.toList) ∈ openings :=
    List.mem_cons_of_mem _ (List.mem_append_left _ (List.mem_map_of_mem hc))
  rw [checkValue]
  cases evaluate c.text.toList with
  | error f => exact agrees_of rfl fun _ => ⟨_, _, hopening, String.append_assoc⟩
  | ok x =>
      refine agrees_of rfl fun _ => ⟨_, " evaluated to " ++ shown x ++ ", expected " ++
        shown c.expected, hopening, ?_⟩
      simp only [String.append_assoc]

theorem agrees_checkNotANumber (h : checkNotANumber evaluate = .ok f) : f.Agrees := by
  obtain ⟨x, -, hf⟩ := bind_eq_ok_iff.mp h
  obtain rfl := Except.ok.inj hf
  refine agrees_of rfl fun _ => ⟨_, _, ?_, String.append_assoc⟩
  decide

theorem agrees_checkRefused (hc : (name, text) ∈ refusedCases)
    (h : checkRefused evaluate name text = .ok f) : f.Agrees := by
  have hopening : (name, Text.quote text.toList) ∈ openings :=
    List.mem_cons_of_mem _ (List.mem_append_right _ (List.mem_cons_of_mem _
      (List.mem_map_of_mem hc)))
  rw [checkRefused] at h
  split at h
  · obtain rfl := Except.ok.inj h
    exact agrees_of rfl fun h => absurd h (by decide)
  · cases h
  · obtain rfl := Except.ok.inj h
    exact agrees_of rfl fun _ => ⟨_, _, hopening, String.append_assoc⟩

/-! ## all checks -/

theorem name_checkRefused (h : checkRefused evaluate name text = .ok f) : f.name = name := by
  rw [checkRefused] at h
  split at h
  · obtain rfl := Except.ok.inj h
    rfl
  · cases h
  · obtain rfl := Except.ok.inj h
    rfl

/-- The findings are in the order of the checks' names. -/
theorem map_name_findings (h : findings version evaluate kinds = .ok fs) :
    fs.map Finding.name = checkNames := by
  obtain ⟨notANumber, refused, hnan, hrefused, rfl⟩ := findings_eq_ok_iff.mp h
  obtain ⟨x, -, hf⟩ := bind_eq_ok_iff.mp hnan
  obtain rfl := Except.ok.inj hf
  have hnames : refused.map Finding.name = refusedCases.map Prod.fst := by
    rw [← List.forall₂_eq_eq_eq, List.forall₂_map_left_iff, List.forall₂_map_right_iff]
    exact hrefused.flip.imp fun _ _ => name_checkRefused
  have hvalues : (valueCases.map (checkValue evaluate)).map Finding.name =
      valueCases.map ValueCase.name := by
    rw [List.map_map]
    refine List.map_congr_left fun c _ => ?_
    rw [Function.comp_apply, checkValue]
    cases evaluate c.text.toList <;> rfl
  rw [List.map_cons, List.map_cons, List.map_append, List.map_cons, hnames, hvalues]
  rfl

/-- All findings agree. -/
theorem agrees_findings (h : findings version evaluate kinds = .ok fs) : ∀ f ∈ fs, f.Agrees := by
  obtain ⟨notANumber, refused, hnan, hrefused, rfl⟩ := findings_eq_ok_iff.mp h
  have hall : (∀ c ∈ refusedCases, True) ↔ ∀ f ∈ refused, f.Agrees :=
    forall_mem_iff_of_forall₂ hrefused fun c hc f hf =>
      iff_of_true trivial (agrees_checkRefused hc hf)
  simp only [List.forall_mem_cons, List.forall_mem_append, List.forall_mem_map]
  exact ⟨agrees_checkArithmetic version, agrees_checkBlank kinds, fun c hc => agrees_checkValue hc,
    agrees_checkNotANumber hnan, hall.mp fun _ _ => trivial⟩

/-! ## the report -/

/-- What the report shows of a finding. -/
def Finding.check (f : Finding) : String × List (String × Json) := (f.name, f.details)

/-- Whether the field `ok` of a check is false. -/
def isFailed (check : String × List (String × Json)) : Bool :=
  match ok? check.2 with
  | some (.bool b) => !b
  | _ => false

theorem Finding.Agrees.failure_eq_none_iff (h : f.Agrees) :
    f.failure = none ↔ ∀ v, ok? f.details = some v → v = .bool true := by
  rw [Agrees] at h
  split at h
  · next hf => exact iff_of_true hf h
  · next error hf =>
    rw [hf]
    refine iff_of_false (Option.some_ne_none error) fun hall => ?_
    cases hall _ h.1

theorem Finding.Agrees.isFailed_eq_false (h : f.Agrees) (hf : f.failure = none) :
    isFailed f.check = false := by
  have hok := h.failure_eq_none_iff.mp hf
  rw [isFailed]
  split
  · next b hb =>
    cases hok _ hb
    rfl
  · rfl

theorem Finding.Agrees.isFailed_eq_true (h : f.Agrees) (hf : f.failure = some error) :
    isFailed f.check = true ∧ Concerns f.name error := by
  simp only [Agrees, hf] at h
  exact ⟨by rw [isFailed, check, h.1]; rfl, h.2⟩

/-- The failed checks and the errors, side by side. -/
theorem forall₂_errors (h : ∀ f ∈ fs, f.Agrees) :
    List.Forall₂ (fun check error => Concerns check.1 error)
      ((fs.map Finding.check).filter isFailed) (fs.filterMap Finding.failure) := by
  induction fs with
  | nil => exact .nil
  | cons f fs ih =>
      obtain ⟨hf, hfs⟩ := List.forall_mem_cons.mp h
      cases hfailure : f.failure with
      | none =>
          rw [List.map_cons, List.filter_cons_of_neg (by simp [hf.isFailed_eq_false hfailure]),
            List.filterMap_cons_none hfailure]
          exact ih hfs
      | some error =>
          obtain ⟨hfailed, hconcerns⟩ := hf.isFailed_eq_true hfailure
          rw [List.map_cons, List.filter_cons_of_pos hfailed, List.filterMap_cons_some hfailure]
          exact .cons hconcerns (ih hfs)

namespace Report

variable {r : Report}

/-- A report that tells what the checks have found. -/
structure Tells (r : Report) : Prop where
  names : r.checks.map Prod.fst = checkNames
  errors : List.Forall₂ (fun check error => Concerns check.1 error) (r.checks.filter isFailed)
    r.errors
  status_iff : r.status = "ok" ↔ r.errors = []
  passed_iff : r.errors = [] ↔
    ∀ check ∈ r.checks, ∀ v, ok? check.2 = some v → v = .bool true

theorem ok_iff : r.ok = true ↔ r.errors = [] := List.isEmpty_iff

theorem status_eq_ok_iff : r.status = "ok" ↔ r.errors = [] := by
  rw [← ok_iff, status]
  cases r.ok <;> simp

/-- Every report tells of its checks what came of them. -/
theorem tells_of_run (h : run version evaluate kinds = .ok r) : r.Tells := by
  obtain ⟨fs, hfs, rfl⟩ := run_eq_ok_iff.mp h
  have hagrees := agrees_findings hfs
  refine ⟨?_, forall₂_errors hagrees, status_eq_ok_iff, ?_⟩
  · rw [← map_name_findings hfs, ofFindings, List.map_map]
    rfl
  · rw [ofFindings, List.filterMap_eq_nil_iff, List.forall_mem_map]
    exact forall₂_congr fun f hf => (hagrees f hf).failure_eq_none_iff

end Report

/-! ## what is written -/

/-- The self-check has the report of it, which it writes if that is asked for; without a report it
writes nothing. -/
theorem run_validate (verbose : Bool) (version : String) (evaluate : Evaluator)
    (kinds : List Kind) (before : List String) :
    (validate verbose version evaluate kinds).run before =
      match run version evaluate kinds with
      | .ok report => (.ok report, before ++ if verbose then report.lines else [])
      | .error f => (.error f, before) := by
  rw [validate, run]
  cases findings version evaluate kinds with
  | error f => rfl
  | ok fs =>
      cases verbose with
      | true => rfl
      | false =>
          show (Except.ok (Report.ofFindings fs), before) = _
          simp [Except.map]

open CommandLine

/-- The exit code is zero exactly if the status is `ok`. -/
theorem exit_runValidate (json : Bool) (report : Report) :
    (runValidate json report).exit = 0 ↔ report.status = "ok" := by
  rw [Report.status_eq_ok_iff, ← Report.ok_iff, runValidate, exitCode]
  cases report.ok <;> simp

/-- Arguments that ask for a self-check run it and print its report, or end with its fault. -/
theorem program_of_validate {world : World} {args : List (List Char)} {verbose json : Bool}
    (h : Invocation.ofArguments args = .ok ⟨verbose, .validate json⟩) :
    program world args = match run world.version world.evaluator world.blankKinds with
      | .ok report => .run (runValidate json report)
      | .error f => .aborted f := by
  cases hrun : run world.version world.evaluator world.blankKinds <;>
    simp [program, h, Command.run, hrun, Except.map]

/-- The command writes what the self-check writes where no document is asked for, and otherwise the
document. -/
theorem output_runValidate {report : Report} (json : Bool)
    (h : run version evaluate kinds = .ok report) :
    (runValidate json report).output =
      written (((validate (!json) version evaluate kinds).run []).2 ++
        if json then [report.toJson.document] else []) := by
  rw [run_validate, h]
  cases json <;> simp [runValidate, validateLines]

/-- The self-check has no report exactly if an evaluation ends as no check expects. -/
theorem exists_error_iff (version : String) (evaluate : Evaluator) (kinds : List Kind) :
    (∃ f, run version evaluate kinds = .error f) ↔
      (∃ f, evaluate "0/0".toList = .error f) ∨
        ∃ c ∈ refusedCases, ∃ kind message, evaluate c.2.toList = .error (.other kind message) := by
  have hother : ∀ g : EvaluatorFault,
      (¬ ∃ message, g = .grammar message) ↔ ∃ kind message, g = .other kind message := by
    intro g
    cases g <;> simp
  rw [exists_error_iff_not_exists_ok, exists_report_iff, not_and_or,
    ← exists_error_iff_not_exists_ok]
  refine or_congr_right ?_
  simp only [not_forall, exists_prop, hother]
  refine exists_congr fun c => and_congr_right fun _ => ⟨?_, ?_⟩
  · rintro ⟨f, hf, kind, message, rfl⟩
    exact ⟨kind, message, hf⟩
  · rintro ⟨kind, message, hf⟩
    exact ⟨_, hf, kind, message, rfl⟩

/-- The self-check has no report exactly if the evaluator fails on `0/0`, or fails on a line that is
to be refused by another error than the grammar's; then nothing has been written.  Otherwise the
report has every check once and in the fixed order, its errors are those of the failed checks, one
for each and in their order, it is a good one exactly if there are none and exactly if no check
has failed, and the command exits with 0 exactly if it is. -/
theorem validate_verdict (version : String) (evaluate : Evaluator) (kinds : List Kind) :
    ((∃ f, run version evaluate kinds = .error f) ↔
      (∃ f, evaluate "0/0".toList = .error f) ∨
        ∃ c ∈ refusedCases, ∃ kind message, evaluate c.2.toList = .error (.other kind message)) ∧
    (∀ f, run version evaluate kinds = .error f →
      (∀ verbose before,
        (validate verbose version evaluate kinds).run before = (.error f, before)) ∧
      ∀ input args quiet json, Invocation.ofArguments args = .ok ⟨quiet, .validate json⟩ →
        program ⟨input, evaluate, kinds, version⟩ args = .aborted f ∧
          (program ⟨input, evaluate, kinds, version⟩ args).output = "") ∧
    (∀ report, run version evaluate kinds = .ok report → report.Tells ∧
      (∀ verbose before, (validate verbose version evaluate kinds).run before =
        (.ok report, before ++ if verbose then report.lines else [])) ∧
      ∀ input args quiet json, Invocation.ofArguments args = .ok ⟨quiet, .validate json⟩ →
        program ⟨input, evaluate, kinds, version⟩ args = .run (runValidate json report) ∧
          ((runValidate json report).exit = 0 ↔ report.status = "ok") ∧
          (runValidate json report).output =
            written (((validate (!json) version evaluate kinds).run []).2 ++
              if json then [report.toJson.document] else [])) ∧
    checkNames.Nodup ∧
    ∀ name other error, Concerns name error → Concerns other error → name = other := by
  refine ⟨exists_error_iff version evaluate kinds, fun f hf => ⟨fun verbose before => ?_, ?_⟩,
    fun report hreport => ⟨Report.tells_of_run hreport, fun verbose before => ?_, ?_⟩, by decide,
    fun _ _ _ => Concerns.unique⟩
  · rw [run_validate, hf]
  · intro input args quiet json hargs
    have hprogram : program ⟨input, evaluate, kinds, version⟩ args = .aborted f := by
      rw [program_of_validate hargs, hf]
    exact ⟨hprogram, by rw [hprogram]; rfl⟩
  · rw [run_validate, hreport]
  · intro input args quiet json hargs
    refine ⟨?_, exit_runValidate json report, output_runValidate json hreport⟩
    rw [program_of_validate hargs, hreport]

end LineCalc.SelfCheck
