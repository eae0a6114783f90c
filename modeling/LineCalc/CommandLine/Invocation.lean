import LineCalc.CommandLine.Arguments
import LineCalc.Settings
import LineCalc.Text.Quoted

/-!
# LineCalc.CommandLine.Invocation

The command line as a whole: switches for the program, then the name of a
command, then the arguments of the command.  Without a name the command is
`repl`.  An expression with a sign in front of it looks like an unknown
switch; where `eval` has no other operand, a single argument that is left
over is its expression.  Any other argument left over is an error.
-/

namespace LineCalc.CommandLine

/-! ## levels -/

/-- The commands, by name. -/
inductive CommandName where
  | eval
  | repl
  | validate
  deriving DecidableEq

namespace CommandName

/-- The names in the order in which a message lists them. -/
def all : List CommandName := [eval, repl, validate]

/-- A name as it is typed. -/
def label : CommandName → String
  | eval => "eval"
  | repl => "repl"
  | validate => "validate"

/-- The command of a name, which may not be cut short. -/
def ofText? (cs : List Char) : Option CommandName := all.find? (·.label.toList = cs)

/-- What the level of a command accepts. -/
def level : CommandName → Level
  | eval =>
    ⟨"textcalc eval", [.help, .json, .tokens, .tree, .strict, .noTrailingDot], true⟩
  | repl => ⟨"textcalc repl", [.help, .strict, .noTrailingDot], false⟩
  | validate => ⟨"textcalc validate", [.help, .json], false⟩

end CommandName

/-- What may stand before the name of a command. -/
def topLevel : Level := ⟨"textcalc", [.help, .verbose], false⟩

/-! ## wording -/

namespace UsageFault

/-- The text of a fault, as the last line on the error output has it. -/
def message : UsageFault → String
  | ambiguous given switches =>
    "ambiguous option: " ++ String.ofList given ++ " could match " ++
      ", ".intercalate (switches.map Switch.name)
  | ignoredText s text =>
    "argument " ++ s.names ++ ": ignored explicit argument " ++ Text.quote text
  | unknownCommand given =>
    "argument command: invalid choice: " ++ Text.quote given ++ " (choose from " ++
      ", ".intercalate (CommandName.all.map (Text.quote ·.label.toList)) ++ ")"
  | missingExpression => "eval: the following arguments are required: expression"
  | leftOver given =>
    "unrecognized arguments: " ++ " ".intercalate (given.map String.ofList)

end UsageFault

/-- The line that tells why arguments cannot be used. -/
def usageLine (program : String) (f : UsageFault) : String :=
  program ++ ": error: " ++ f.message

/-! ## invocations -/

/-- The switches of an evaluation or a session that are settings. -/
structure Policy where
  strict : Bool
  noTrailingDot : Bool
  deriving DecidableEq

/-- How an evaluation is shown, and what is refused. -/
structure EvalFlags where
  /-- Whether the outcome is written as a document. -/
  json : Bool
  /-- Whether the tokens are written first. -/
  tokens : Bool
  /-- Whether the expression is written before the outcome. -/
  tree : Bool
  policy : Policy
  deriving DecidableEq

/-- A command with all that it needs to run. -/
inductive Command where
  | eval (flags : EvalFlags) (expression : List Char)
  | repl (policy : Policy)
  | validate (json : Bool)
  deriving DecidableEq

/-- What the arguments of a program ask for. -/
structure Invocation where
  /-- Whether the log is shown. -/
  verbose : Bool
  command : Command
  deriving DecidableEq

namespace Policy

/-- The policy of the switches that have been turned on. -/
def ofSwitches (switches : List Switch) : Policy :=
  ⟨switches.contains .strict, switches.contains .noTrailingDot⟩

/-- The standard settings but for what a policy says. -/
def settings (p : Policy) : Settings :=
  { Settings.standard with
    division := if p.strict then .strict else .ieee
    allowTrailingDot := .bool (!p.noTrailingDot) }

end Policy

/-- The flags of the switches that have been turned on. -/
def EvalFlags.ofSwitches (switches : List Switch) : EvalFlags :=
  ⟨switches.contains .json, switches.contains .tokens, switches.contains .tree,
    .ofSwitches switches⟩

/-- A command from what its arguments amount to, and the arguments that are left over. -/
def Command.ofUse (leftOver : List (List Char)) (use : Use) :
    CommandName → Except Halt (Command × List (List Char))
  | .eval =>
    match use.operand, leftOver with
    | some e, _ => .ok (.eval (.ofSwitches use.switches) e, leftOver)
    | none, [e] => .ok (.eval (.ofSwitches use.switches) e, [])
    | none, _ => .error (.usage topLevel.program .missingExpression)
  | .repl => .ok (.repl (.ofSwitches use.switches), leftOver)
  | .validate => .ok (.validate (use.switches.contains .json), leftOver)

namespace Invocation

/-- The arguments before the name of a command, which is there in the end: a command line
without one is read as if `repl` came last. -/
def split (args : List (List Char)) :
    Except Halt (Use × List Char × List (List Char)) := do
  let start : Use := ⟨[], none, []⟩
  let default := CommandName.repl.label.toList
  match ← topLevel.splitCommand start (← topLevel.words args) with
  | (use, some (name, rest)) => return (use, name, rest)
  | (_, none) =>
    match ← topLevel.splitCommand start (← topLevel.words (args ++ [default])) with
    | (use, some (name, rest)) => return (use, name, rest)
    | (use, none) => return (use, default, [])

/-- What the arguments ask for.  What neither level recognises is refused, except that an evaluation
without an expression takes a single leftover as that. -/
def ofArguments (args : List (List Char)) : Except Halt Invocation := do
  let (top, name, rest) ← split args
  let some command := CommandName.ofText? name
    | throw (.usage topLevel.program (.unknownCommand name))
  let use ← command.level.read rest
  let (command, leftOver) ← Command.ofUse (top.leftOver ++ use.leftOver) use command
  unless leftOver.isEmpty do throw (.usage topLevel.program (.leftOver leftOver))
  return ⟨top.switches.contains .verbose, command⟩

end Invocation

end LineCalc.CommandLine
