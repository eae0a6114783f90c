import LineCalc.Line

/-!
# LineCalc.SelfCheck

The self-check: a fixed list of checks on the calculator, and a report of
what they found.  The evaluator is a parameter, so the verdict of the report
can be read against any behaviour of it.

A check of a value fails on a wrong value and on any error.  A check that
expects a line to be refused fails on a value; an error there of another kind
than the grammar's, and any error of the check on `0/0`, ends the self-check
without a report.
-/

namespace LineCalc

/-- An error of the evaluator under check. -/
inductive EvaluatorFault where
  /-- The line is refused by the grammar. -/
  | grammar (message : String)
  /-- Any other error, by its class and what it says. -/
  | other (kind message : String)

namespace EvaluatorFault

/-- What an error says. -/
def message : EvaluatorFault → String
  | grammar message | other _ message => message

/-- The name of the class of an error. -/
def kind : EvaluatorFault → String
  | grammar _ => "ParseError"
  | other kind _ => kind

/-- An error as a report shows it, by its class and what it says. -/
def describe (f : EvaluatorFault) : String := f.kind ++ "(" ++ Text.quote f.message.toList ++ ")"

end EvaluatorFault

/-- The evaluator under check, which for every text has a value or fails. -/
abbrev Evaluator := List Char → Except EvaluatorFault Float

namespace Line

/-- A fault of a line as the self-check sees it. -/
def Fault.forCheck : Fault → EvaluatorFault
  | .reading (.grammar f) => .grammar f.message
  | .reading .exhausted => .other "IndexError" Reading.Fault.exhausted.message
  | .reading f => .other "ValueError" f.message
  | .evaluation f => .other "EvaluationError" f.message

/-- The evaluator under standard settings. -/
def evaluator : Evaluator := fun text => (evaluate .standard text).mapError Fault.forCheck

end Line

namespace SelfCheck

/-- What one check has found. -/
structure Finding where
  /-- The name of the check. -/
  name : String
  /-- The details, in the order in which they are shown. -/
  details : List (String × Json)
  /-- The error, if the check has failed. -/
  failure : Option String

/-- A finding whose first detail tells whether it is as expected. -/
def Finding.of (name : String) (ok : Bool) (details : List (String × Json)) (failure : String) :
    Finding :=
  ⟨name, ("ok", .bool ok) :: details, if ok then none else some failure⟩

/-- A double as an error shows it. -/
def shown (x : Float) : String := String.ofList (Decimal.Layout.message.write x)

/-! ## closeness -/

/-- The difference that counts as none, relative to the larger of two values. -/
def tolerance : Float := Decimal.toDouble false ⟨1, -9⟩

/-- Whether two doubles are equal, or finite and closer than the tolerance. -/
def isClose (x y : Float) : Bool :=
  x == y ||
    (Binary64.isFinite x && Binary64.isFinite y &&
      let difference := (y - x).abs
      difference ≤ (tolerance * y).abs || difference ≤ (tolerance * x).abs)

/-! ## the checks -/

/-- The library that the arithmetic comes from, which is always there, with its version. -/
def checkArithmetic (version : String) : Finding :=
  ⟨"numpy", [("available", .bool true), ("version", .text version)], none⟩

/-- A kind of token as an error shows it. -/
def describeKind (k : Kind) : String :=
  "<" ++ k.fullName ++ ": " ++ Text.quote k.symbol ++ ">"

/-- A blank line has the end of the line as its only token. -/
def checkBlank (kinds : List Kind) : Finding :=
  .of "scan_blank" (kinds = [.eof]) []
    ("Blank input scanned to [" ++ ", ".intercalate (kinds.map describeKind) ++ "]")

/-- A line that is to have a value. -/
structure ValueCase where
  name : String
  text : String
  expected : Float

/-- The lines that are to have a value, in the order of their checks. -/
def valueCases : List ValueCase :=
  [⟨"precedence", "2+3*4", Decimal.toDouble false ⟨14, 0⟩⟩,
   ⟨"parentheses", "(2+3)*4", Decimal.toDouble false ⟨20, 0⟩⟩,
   ⟨"left_associativity", "10-2-3", Decimal.toDouble false ⟨5, 0⟩⟩,
   ⟨"unary_minus", "-5+3", Decimal.toDouble true ⟨2, 0⟩⟩,
   ⟨"decimal", "12.34", Decimal.toDouble false ⟨1234, -2⟩⟩,
   ⟨"divide_by_zero", "1/0", Binary64.posInfinity⟩]

/-- The value of a line is to be close to the one expected. -/
def checkValue (evaluate : Evaluator) (c : ValueCase) : Finding :=
  let line := Text.quote c.text.toList
  match evaluate c.text.toList with
  | .error f =>
    .of c.name false [("error", .text f.message)] (line ++ " raised " ++ f.describe)
  | .ok x =>
    .of c.name (isClose x c.expected) [("value", .real x)]
      (line ++ " evaluated to " ++ shown x ++ ", expected " ++ shown c.expected)

/-- Zero divided by zero is not a number. -/
def checkNotANumber (evaluate : Evaluator) : Except EvaluatorFault Finding := do
  let x ← evaluate "0/0".toList
  return .of "zero_over_zero" x.isNaN [] ("'0/0' evaluated to " ++ shown x ++ ", expected nan")

/-- The lines that the grammar refuses, by the name of the check. -/
def refusedCases : List (String × String) :=
  [("double_sign", "--5"), ("unbalanced_paren", "(2+3"), ("trailing_garbage", "2 2"),
   ("unknown_character", "@")]

/-- A line is to be refused by the grammar.  Any other error is that of the self-check. -/
def checkRefused (evaluate : Evaluator) (name text : String) : Except EvaluatorFault Finding :=
  match evaluate text.toList with
  | .error (.grammar message) => .ok (.of name true [("error", .text message)] "")
  | .error f => .error f
  | .ok x =>
    .ok (.of name false [("value", .real x)]
      (Text.quote text.toList ++ " should not parse, got " ++ shown x))

/-- All the checks, in the order of the report.  The first fault that no check expects ends them. -/
def findings (version : String) (evaluate : Evaluator) (blankKinds : List Kind) :
    Except EvaluatorFault (List Finding) := do
  let values := valueCases.map (checkValue evaluate)
  let notANumber ← checkNotANumber evaluate
  let refused ← refusedCases.mapM fun (name, text) => checkRefused evaluate name text
  return checkArithmetic version :: checkBlank blankKinds :: (values ++ notANumber :: refused)

/-! ## the report -/

/-- What a self-check has found. -/
structure Report where
  /-- The details of the checks, by name. -/
  checks : List (String × List (String × Json))
  /-- The errors of the failed checks. -/
  errors : List String

namespace Report

/-- The findings, told twice: all the details, and the errors of those that have failed. -/
def ofFindings (fs : List Finding) : Report :=
  ⟨fs.map fun f => (f.name, f.details), fs.filterMap Finding.failure⟩

/-- Whether no check has failed. -/
def ok (r : Report) : Bool := r.errors.isEmpty

/-- The verdict, in a word. -/
def status (r : Report) : String := if r.ok then "ok" else "fail"

/-- The report as lines, with the errors last if there are any. -/
def lines (r : Report) : List String :=
  ("textcalc validation: " ++ r.status) ::
    (r.checks.map (fun (name, details) => "- " ++ name ++ ": " ++ (Json.object details).inline) ++
      if r.ok then [] else "Errors:" :: r.errors.map ("  - " ++ ·))

/-- The report as a value. -/
def toJson (r : Report) : Json :=
  .object [
    ("status", .text r.status),
    ("checks", .object (r.checks.map fun (name, details) => (name, .object details))),
    ("errors", .list (r.errors.map .text))]

end Report

/-- The self-check of an evaluator, given the version of the arithmetic and the kinds of the tokens
of a blank line. -/
def run (version : String) (evaluate : Evaluator) (blankKinds : List Kind) :
    Except EvaluatorFault Report :=
  (findings version evaluate blankKinds).map .ofFindings

/-- A computation that writes lines and may end in a fault; what is written by then stays. -/
abbrev Writing := ExceptT EvaluatorFault (StateM (List String))

/-- The report of what was found, shown if that is asked for. -/
def finish (verbose : Bool) (fs : List Finding) : Writing Report := do
  let report := Report.ofFindings fs
  if verbose then modify (· ++ report.lines)
  return report

/-- The self-check with the lines that it writes. -/
def validate (verbose : Bool) (version : String) (evaluate : Evaluator) (blankKinds : List Kind) :
    Writing Report := do
  finish verbose (← liftExcept (findings version evaluate blankKinds))

/-- The blank line of the check on scanning. -/
def blankLine : List Char := [' ', ' ', ' ']

/-- What the calculator's own scanner makes of the blank line. -/
def blankKinds : List Kind := (Line.tokens .standard blankLine).map Token.kind

end SelfCheck

end LineCalc
