import LineCalc.CommandLine.Run
import LineCalc.Proofs.CommandLine.Sorting
import LineCalc.Proofs.SelfCheck.Report

/-!
# LineCalc.Proofs.CommandLine.Usage

Arguments that cannot be used are refused before anything is done: the program
reads nothing and writes nothing but the line that says why.  Otherwise it
runs one command to its end.  An argument that no level recognises is refused,
but for a single one that is the expression of an evaluation:
`program_refuses_or_runs`.
-/

namespace LineCalc.CommandLine

variable {args : List (List Char)} {e : List Char} {use : Use}
variable {level : String} {fault : UsageFault} {invocation : Invocation} {s : Sorting}

/-! ## endings -/

/-- The exit codes of a command. -/
def Command.exits : Command → List Nat
  | repl _ => [0]
  | eval _ _ | validate _ => [0, 1]

/-- The program refuses the arguments, whatever there is to read. -/
def Refuses (args : List (List Char)) : Prop :=
  ∃ level fault, Invocation.ofArguments args = .error (.usage level fault) ∧
    ∀ world, program world args = .usage (usageLine level fault) ∧
      (program world args).exit = 2 ∧ (program world args).output = "" ∧
      (program world args).complaint? = some (usageLine level fault)

/-- The program runs a command to its end, whatever there is to read. -/
structure Runs (args : List (List Char)) (invocation : Invocation) : Prop where
  asked : Invocation.ofArguments args = .ok invocation
  ends : ∀ version input, ∃ r, invocation.command.run (.ofInput version input) = .ok r ∧
    program (.ofInput version input) args = .run r
  exit : ∀ version input,
    (program (.ofInput version input) args).exit ∈ invocation.command.exits
  complaint : ∀ version input, (program (.ofInput version input) args).complaint? = none

theorem exitCode_mem (ok : Bool) : exitCode ok ∈ [0, 1] := by cases ok <;> decide

/-- Every command comes to its end. -/
theorem Command.exists_run (command : Command) (version : String) (input : List Char) :
    ∃ r, command.run (.ofInput version input) = .ok r ∧ r.exit ∈ command.exits := by
  cases command with
  | eval flags text => exact ⟨_, rfl, exitCode_mem _⟩
  | repl policy => exact ⟨_, rfl, List.mem_singleton_self _⟩
  | validate json =>
      obtain ⟨report, hreport⟩ := SelfCheck.exists_report_evaluator version SelfCheck.blankKinds
      refine ⟨runValidate json report, ?_, exitCode_mem _⟩
      show (SelfCheck.run version Line.evaluator SelfCheck.blankKinds).map _ = _
      rw [hreport]
      rfl

/-- Arguments that make an invocation run it. -/
theorem runs_of_ofArguments (h : Invocation.ofArguments args = .ok invocation) :
    Runs args invocation := by
  have hrun : ∀ version input, ∃ r, invocation.command.run (.ofInput version input) = .ok r ∧
      program (.ofInput version input) args = .run r ∧ r.exit ∈ invocation.command.exits := by
    intro version input
    obtain ⟨r, hr, hexit⟩ := invocation.command.exists_run version input
    exact ⟨r, hr, by rw [program, h]; dsimp only; rw [hr], hexit⟩
  refine ⟨h, fun version input => ?_, fun version input => ?_, fun version input => ?_⟩
  all_goals obtain ⟨r, hr, hprogram, hexit⟩ := hrun version input
  · exact ⟨r, hr, hprogram⟩
  · rw [hprogram]
    exact hexit
  · rw [hprogram]
    rfl

/-- Arguments that break the usage are refused. -/
theorem refuses_of_ofArguments (h : Invocation.ofArguments args = .error (.usage level fault)) :
    Refuses args := by
  have hprogram : ∀ world, program world args = .usage (usageLine level fault) := by
    intro world
    rw [program, h]
  refine ⟨level, fault, h, fun world => ?_⟩
  rw [hprogram world]
  exact ⟨rfl, rfl, rfl, rfl⟩

/-- What is refused does not run. -/
theorem Refuses.not_runs (h : Refuses args) : ¬ Runs args invocation := by
  rintro ⟨hok, -, -, -⟩
  obtain ⟨level, fault, herror, -⟩ := h
  rw [herror] at hok
  cases hok

/-- Without help the arguments are refused, or a command is run. -/
theorem refuses_or_runs (h : Invocation.ofArguments args ≠ .error .help) :
    Refuses args ∨ ∃ invocation, Runs args invocation := by
  cases hargs : Invocation.ofArguments args with
  | ok invocation => exact .inr ⟨invocation, runs_of_ofArguments hargs⟩
  | error halt =>
      cases halt with
      | help => exact absurd hargs h
      | usage level fault => exact .inl (refuses_of_ofArguments hargs)

/-! ## what is made of the arguments -/

namespace Command

variable {name : CommandName} {leftOver : List (List Char)}

/-- An evaluation without an operand takes the only argument left over. -/
theorem ofUse_lent (ho : use.operand = none) (e : List Char) :
    ofUse [e] use .eval = .ok (.eval (.ofSwitches use.switches) e, []) := by
  simp only [ofUse, ho]

/-- Without an operand an evaluation needs a single argument that is left over. -/
theorem ofUse_missing (ho : use.operand = none) (hl : ∀ e, leftOver ≠ [e]) :
    ofUse leftOver use .eval = .error (.usage topLevel.program .missingExpression) := by
  cases leftOver with
  | nil => simp only [ofUse, ho]
  | cons e more =>
      cases more with
      | nil => exact absurd rfl (hl e)
      | cons _ _ => simp only [ofUse, ho]

theorem exists_ofUse (h : name = .eval → use.operand ≠ none) (leftOver : List (List Char)) :
    ∃ command, ofUse leftOver use name = .ok (command, leftOver) := by
  cases name with
  | eval =>
      obtain ⟨e, he⟩ := Option.ne_none_iff_exists'.mp (h rfl)
      exact ⟨.eval (.ofSwitches use.switches) e, by simp only [ofUse, he]⟩
  | repl | validate => exact ⟨_, rfl⟩

end Command

namespace Sorting

/-- The one argument that is not recognised is the expression of an evaluation. -/
def Lends (s : Sorting) (e : List Char) : Prop :=
  s.command = .eval ∧ s.use.operand = none ∧ s.unrecognised = [e]

/-- Where an argument is lent, the command is an evaluation of it. -/
theorem settle_of_lends (h : s.Lends e) :
    s.settle = .ok ⟨s.top.switches.contains .verbose, .eval (.ofSwitches s.use.switches) e⟩ := by
  obtain ⟨hc, ho, hu⟩ := h
  rw [settle, hc, hu, Command.ofUse_lent ho]
  rfl

/-- Without an operand and an argument to lend, an evaluation has no expression. -/
theorem settle_of_missing (hc : s.command = .eval) (ho : s.use.operand = none)
    (h : ∀ e, ¬ s.Lends e) :
    s.settle = .error (.usage topLevel.program .missingExpression) := by
  rw [settle, hc, Command.ofUse_missing ho fun e hu => h e ⟨hc, ho, hu⟩]
  rfl

/-- Any argument that is left over is an error, if an evaluation has an operand. -/
theorem settle_of_leftOver (hc : s.command = .eval → s.use.operand ≠ none)
    (hu : s.unrecognised ≠ []) :
    s.settle = .error (.usage topLevel.program (.leftOver s.unrecognised)) := by
  obtain ⟨command, hcommand⟩ := Command.exists_ofUse hc s.unrecognised
  have hne : s.unrecognised.isEmpty = false := by simpa using hu
  rw [settle, hcommand]
  simp only [bind, Except.bind, hne]
  rfl

/-- Where nothing is left over and no operand is missing, there is a command. -/
theorem settle_of_nil (hc : s.command = .eval → s.use.operand ≠ none) (hu : s.unrecognised = []) :
    ∃ command, s.settle = .ok ⟨s.top.switches.contains .verbose, command⟩ := by
  obtain ⟨command, hcommand⟩ := Command.exists_ofUse hc s.unrecognised
  refine ⟨command, ?_⟩
  rw [settle, hcommand, hu]
  rfl

end Sorting

/-! ## the program -/

theorem runs_of_settle (h : Invocation.sort args = .ok s) (hs : s.settle = .ok invocation) :
    Runs args invocation :=
  runs_of_ofArguments (by rw [Invocation.ofArguments_eq, h]; exact hs)

theorem refuses_of_settle (h : Invocation.sort args = .ok s)
    (hs : s.settle = .error (.usage level fault)) : Refuses args :=
  refuses_of_ofArguments (by rw [Invocation.ofArguments_eq, h]; exact hs)

/-- Without the name of a command a session is held, if no argument is left over. -/
theorem refuses_or_runs_of_none (h : Invocation.splitOnce args = .ok (use, none)) :
    (use.leftOver ≠ [] → Refuses args) ∧
      (use.leftOver = [] → Runs args ⟨use.switches.contains .verbose, .repl ⟨false, false⟩⟩) := by
  obtain hsort | ⟨hne, hsort⟩ := Invocation.sort_of_none h
  · refine ⟨fun hl => refuses_of_settle hsort (Sorting.settle_of_leftOver nofun ?_), fun hl => ?_⟩
    · simpa [Sorting.unrecognised] using hl
    · refine runs_of_settle hsort ?_
      rw [Sorting.settle, Sorting.unrecognised, hl]
      rfl
  · have hargs : Invocation.ofArguments args =
        .error (.usage topLevel.program (.unknownCommand ['-', '-'])) := by
      rw [Invocation.ofArguments_eq, hsort]
      rfl
    exact ⟨fun _ => refuses_of_ofArguments hargs, fun hl => absurd hl hne⟩

/-- Sorted arguments are refused exactly if one of them is not recognised, or an evaluation has no
operand, and no argument is lent. -/
theorem refuses_iff (h : Invocation.sort args = .ok s) :
    Refuses args ↔ (∀ e, ¬ s.Lends e) ∧
      (s.unrecognised ≠ [] ∨ s.command = .eval ∧ s.use.operand = none) := by
  constructor
  · intro hr
    refine ⟨fun e he => hr.not_runs (runs_of_settle h (Sorting.settle_of_lends he)), ?_⟩
    by_contra hno
    push Not at hno
    obtain ⟨command, hs⟩ := Sorting.settle_of_nil hno.2 hno.1
    exact hr.not_runs (runs_of_settle h hs)
  · rintro ⟨hlends, hcase⟩
    by_cases hmissing : s.command = .eval ∧ s.use.operand = none
    · exact refuses_of_settle h (Sorting.settle_of_missing hmissing.1 hmissing.2 hlends)
    · exact refuses_of_settle h (Sorting.settle_of_leftOver (fun hc ho => hmissing ⟨hc, ho⟩)
        (hcase.resolve_right hmissing))

end LineCalc.CommandLine
