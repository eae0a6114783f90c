import LineCalc.CommandLine.Invocation
import LineCalc.Json.Document
import LineCalc.SelfCheck
import LineCalc.Session

/-!
# LineCalc.CommandLine.Run

What a command does: the text that it writes, and its exit code.  An
evaluation writes its tokens and its expression if that is asked for, each on
a line, and its outcome last, either as a line or as a JSON document, in
which a double that is not finite is a text.
-/

namespace LineCalc.CommandLine

/-- What comes of a command. -/
structure Run where
  /-- The exit code. -/
  exit : Nat
  /-- The text on the output. -/
  output : String

/-- The exit code that tells whether all went well. -/
def exitCode (ok : Bool) : Nat := if ok then 0 else 1

/-- The exit code for arguments that cannot be used. -/
def usageExit : Nat := 2

/-- Lines as they are on the output, each with its end. -/
def written (lines : List String) : String := String.join (lines.map (· ++ "\n"))

/-! ## evaluation -/

/-- A value in a document: a number if it is finite, and otherwise the text of the display. -/
def jsonValue (x : Float) : Json :=
  if Binary64.isFinite x then .real x else .text (String.ofList (Decimal.display x))

/-- The outcome of an evaluation as a document: value or error, and null for the other. -/
def outcomeJson (text : List Char) (outcome : Except Line.Fault Float) : Json :=
  .object [
    ("expression", .text (String.ofList text)),
    ("ok", .bool outcome.isOk),
    ("value", match outcome with | .ok x => jsonValue x | .error _ => .null),
    ("error", match outcome with | .ok _ => .null | .error f => .text f.message)]

/-- The outcome of an evaluation as a line. -/
def outcomeLine : Except Line.Fault Float → String
  | .ok x => String.ofList (Decimal.display x)
  | .error f => "Invalid Expression: " ++ f.message

/-- The lines that an evaluation writes before its outcome: the tokens, and the expression if
there is one. -/
def partLines (flags : EvalFlags) (ts : List Token) (tree : Except Reading.Fault Expr) :
    List String :=
  (if flags.tokens then ts.map Token.line else []) ++
    match flags.tree, tree with
    | true, .ok e => [e.render]
    | _, _ => []

/-- How an evaluation ends on the output, as a document or as a line. -/
def finalLine (json : Bool) (text : List Char) (outcome : Except Line.Fault Float) : String :=
  if json then (outcomeJson text outcome).document else outcomeLine outcome

/-- An evaluation.  The line is read once, and the value is that of the expression read. -/
def runEval (flags : EvalFlags) (text : List Char) : Run :=
  let s := flags.policy.settings
  let tree := Line.read s text
  let outcome := tree.mapError .reading >>= Line.valueOf s
  ⟨exitCode outcome.isOk,
    written (partLines flags (Line.tokens s text) tree ++ [finalLine flags.json text outcome])⟩

/-! ## the other commands -/

/-- A session, held on the lines of the input. -/
def runRepl (policy : Policy) (input : List Char) : Run :=
  ⟨exitCode true, (Session.run policy.settings (Session.linesOf input)).transcript⟩

/-- The report of a self-check, as a document or as lines. -/
def validateLines (json : Bool) (report : SelfCheck.Report) : List String :=
  if json then [report.toJson.document] else report.lines

/-- A self-check that has come to a report. -/
def runValidate (json : Bool) (report : SelfCheck.Report) : Run :=
  ⟨exitCode report.ok, written (validateLines json report)⟩

/-! ## the program -/

/-- The circumstances in which a program runs. -/
structure World where
  /-- The text on the input. -/
  input : List Char
  /-- The evaluator that the self-check looks at. -/
  evaluator : Evaluator
  /-- The kinds of the tokens that the self-check finds in a blank line. -/
  blankKinds : List Kind
  /-- The version of the library that the arithmetic comes from. -/
  version : String

/-- The circumstances with the calculator's own evaluator. -/
def World.ofInput (version : String) (input : List Char) : World :=
  ⟨input, Line.evaluator, SelfCheck.blankKinds, version⟩

/-- A command run to its end, unless the self-check has none. -/
def Command.run (world : World) : Command → Except EvaluatorFault Run
  | .eval flags text => .ok (runEval flags text)
  | .repl policy => .ok (runRepl policy world.input)
  | .validate json =>
    (SelfCheck.run world.version world.evaluator world.blankKinds).map (runValidate json)

/-- How a program ends. -/
inductive Ending where
  /-- Help has been asked for. -/
  | help
  /-- The arguments cannot be used, for the reason in the line. -/
  | usage (line : String)
  /-- The command has come to its end. -/
  | run (r : Run)
  /-- The self-check met an error that it does not expect. -/
  | aborted (f : EvaluatorFault)

namespace Ending

/-- The exit code of a program. -/
def exit : Ending → Nat
  | help => exitCode true
  | usage _ => usageExit
  | run r => r.exit
  | aborted _ => exitCode false

/-- The text on the output. -/
def output : Ending → String
  | run r => r.output
  | _ => ""

/-- The line on the error output. -/
def complaint? : Ending → Option String
  | usage line => some line
  | aborted f => some (f.kind ++ ": " ++ f.message)
  | _ => none

end Ending

/-- The program: arguments that cannot be used end it before anything is read or written. -/
def program (world : World) (args : List (List Char)) : Ending :=
  match Invocation.ofArguments args with
  | .error .help => .help
  | .error (.usage program f) => .usage (usageLine program f)
  | .ok invocation =>
    match invocation.command.run world with
    | .ok r => .run r
    | .error f => .aborted f

end LineCalc.CommandLine
