import LineCalc.Binary64
import LineCalc.Expr.Evaluation
import LineCalc.Json.Inline

/-!
# LineCalc.Settings

What can be set for the reading and evaluation of lines: the policy for a
division by zero, whether a number may end in a bare point, how many
parentheses may be open at once, and the prompt.  The last three keep the
JSON value that they were given as, and are read from it when they are used.
-/

namespace LineCalc

namespace Division

/-- A policy by its name in the settings. -/
def label : Division → String
  | ieee => "ieee"
  | strict => "strict"

/-- The policies, in the order in which a message lists them. -/
def all : List Division := [ieee, strict]

/-- The policy that a value names. -/
def ofJson? (v : Json) : Option Division := v.text?.bind fun s => all.find? (·.label = s)

end Division

/-- How lines are read and evaluated.  All but the policy are kept as they were given. -/
structure Settings where
  /-- What becomes of a division by zero. -/
  division : Division
  /-- Whether a number may end in a bare point. -/
  allowTrailingDot : Json
  /-- How many parentheses may be open at once. -/
  maxDepth : Json
  /-- What a session asks for a line with. -/
  prompt : Json

/-- Why values are no settings. -/
inductive SettingsFault where
  /-- Values under names that no setting has. -/
  | unknownKeys (keys : List String)
  /-- The policy is not one of the two. -/
  | unknownPolicy (given : Json)
  /-- The depth has no order with numbers. -/
  | depthNotNumber (given : Json)
  /-- The depth is less than one. -/
  | depthTooSmall (given : Json)

namespace Settings

/-- The settings where nothing else is said. -/
def standard : Settings :=
  ⟨.ieee, .bool true, .int 100, .text "Enter your calculation\n> "⟩

/-- The deepest nesting that is ever read, whatever the setting. -/
def deepest : Nat := 1000

/-- A depth as a whole number, which a fraction does not reach; no number is less than zero. -/
def depthOf? : Json → Option Nat
  | .bool b => some b.toNat
  | .int n => some n.toNat
  | .real x => some (if Binary64.isNegative x then 0 else Binary64.floor x)
  | _ => none

/-- How many parentheses may be open at once. -/
def limit (s : Settings) : Nat := min ((depthOf? s.maxDepth).getD 0) deepest

/-- Whether a number may end in a bare point, which any value that is not empty says. -/
def trailingDot (s : Settings) : Bool := s.allowTrailingDot.holds

/-- The names that values may have, as a message lists them. -/
def keys : List String := ["allow_trailing_dot", "division_policy", "max_depth", "prompt"]

/-- The names that no setting has, each once and in alphabetical order. -/
def unknownKeys (fields : List (String × Json)) : List String :=
  (((fields.map Prod.fst).eraseDups).filter (!keys.contains ·)).mergeSort fun a b => !(b < a)

/-- A depth that is at least one. -/
def checkDepth (given : Json) : Except SettingsFault Json :=
  match depthOf? given with
  | none => .error (.depthNotNumber given)
  | some 0 => .error (.depthTooSmall given)
  | some _ => .ok given

/-- The settings that are given by name; the others are standard. -/
def ofFields (fields : List (String × Json)) : Except SettingsFault Settings := do
  let unknown := unknownKeys fields
  unless unknown.isEmpty do throw (.unknownKeys unknown)
  let given (name : String) (default : Json) := (Json.fieldIn? name fields).getD default
  let policy := given "division_policy" (.text standard.division.label)
  let some division := Division.ofJson? policy | throw (.unknownPolicy policy)
  let maxDepth ← checkDepth (given "max_depth" standard.maxDepth)
  return {
    division
    allowTrailingDot := given "allow_trailing_dot" standard.allowTrailingDot
    maxDepth
    prompt := given "prompt" standard.prompt }

end Settings

namespace SettingsFault

/-- Names as a message lists them. -/
def listed (names : List String) : String := (Json.list (names.map .text)).inline

/-- The name of the type of a value, as a message has it. -/
def typeWord : Json → String
  | .null => "NoneType"
  | .bool _ => "bool"
  | .int _ => "int"
  | .real _ => "float"
  | .text _ => "str"
  | .list _ => "list"
  | .object _ => "dict"

/-- The text of the error. -/
def message : SettingsFault → String
  | unknownKeys names =>
    "Unknown config keys: " ++ listed names ++ ". Available: " ++ listed Settings.keys
  | unknownPolicy given =>
    "Unknown division policy: " ++ given.inline ++ ". Available: " ++
      listed (Division.all.map Division.label)
  | depthNotNumber given =>
    "'<' not supported between instances of '" ++ typeWord given ++ "' and 'int'"
  | depthTooSmall given => "max_depth must be >= 1, got " ++ given.inline

end SettingsFault

end LineCalc
