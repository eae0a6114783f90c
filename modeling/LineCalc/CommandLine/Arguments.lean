import LineCalc.Text.Digit

/-!
# LineCalc.CommandLine.Arguments

The arguments of one level of a command line.  Every argument is first
sorted into a `Word`; then the words are walked through in order.

An argument that begins with a hyphen is a switch if it is the name of one,
or begins with the name of exactly one: a long name may be cut short, and
may have a text attached with `=`; the letters of short names may stand
together, and an `=` may follow the first of them.  It is an operand if it is
a single hyphen, looks like a negative number or holds a space, and unknown
otherwise.  After the terminator `--` every argument is an operand.

No switch takes a text, so an attached one is an error.  What the walk has
no use for is left over.
-/

namespace LineCalc.CommandLine

open Text

/-! ## switches -/

/-- The switches of all the levels. -/
inductive Switch where
  | help
  | verbose
  | json
  | tokens
  | tree
  | strict
  | noTrailingDot
  deriving DecidableEq

namespace Switch

/-- The short name of a switch: one letter after a hyphen. -/
def letter? : Switch → Option Char
  | help => some 'h'
  | _ => none

/-- The long name of a switch, as it is typed. -/
def name : Switch → String
  | help => "--help"
  | verbose => "--verbose"
  | json => "--json"
  | tokens => "--tokens"
  | tree => "--tree"
  | strict => "--strict"
  | noTrailingDot => "--no-trailing-dot"

/-- All names of a switch, as a message shows them. -/
def names (s : Switch) : String :=
  match s.letter? with
  | some c => "-" ++ String.singleton c ++ "/" ++ s.name
  | none => s.name

end Switch

/-- Why arguments cannot be used. -/
inductive UsageFault where
  /-- A name cut so short that several switches have it. -/
  | ambiguous (given : List Char) (switches : List Switch)
  /-- A text attached to a switch. -/
  | ignoredText (s : Switch) (text : List Char)
  /-- A word where the name of a command is expected. -/
  | unknownCommand (given : List Char)
  /-- An evaluation of nothing. -/
  | missingExpression
  /-- Arguments that no level recognises. -/
  | leftOver (given : List (List Char))

/-- Why the arguments ask for no command. -/
inductive Halt where
  /-- Help is asked for. -/
  | help
  /-- The arguments cannot be used; `program` is the name of the level that refuses them. -/
  | usage (program : String) (f : UsageFault)

/-- What a level has made of its arguments. -/
structure Use where
  /-- The switches that are turned on, in the order given. -/
  switches : List Switch
  /-- The first operand, where the level takes one. -/
  operand : Option (List Char)
  /-- The arguments that the level does not recognise. -/
  leftOver : List (List Char)

/-- What a level accepts.  There is one before the name of a command, and one for each command. -/
structure Level where
  /-- How messages name the level. -/
  program : String
  /-- The switches that the level knows. -/
  switches : List Switch
  /-- Whether the level has a place for one operand. -/
  takesOperand : Bool

/-! ## words -/

/-- What an argument looks like, before it is put to use. -/
inductive Word where
  | operand
  /-- Two hyphens, after which every argument is an operand. -/
  | terminator
  /-- A switch by its long name, with an attached text. -/
  | long (s : Switch) (text : Option (List Char))
  /-- A switch by its letter, and the text after it. -/
  | short (s : Switch) (text : List Char)
  /-- No switch of the level, though it begins with a hyphen. -/
  | unknown

/-- The digits at the front of a text are all of it, or all but a line feed at its end. -/
def endsAfterDigits (cs : List Char) : Bool :=
  let rest := cs.dropWhile isDigit
  rest = [] || rest = ['\n']

/-- Whether an argument is a hyphen and a number: digits, or a point between digits, of which
those before the point may be missing. -/
def isNegativeNumber : List Char → Bool
  | '-' :: cs =>
    (cs.head?.any isDigit && endsAfterDigits cs) ||
      match cs.dropWhile isDigit with
      | '.' :: fraction => fraction.head?.any isDigit && endsAfterDigits fraction
      | _ => false
  | _ => false

example : isNegativeNumber ['-', '.', '5'] = true ∧ isNegativeNumber ['-', '5', '+', '3'] = false ∧
    isNegativeNumber ['-', '5', '.'] = false := ⟨rfl, rfl, rfl⟩

/-- A long switch with a text attached to it, at the first equals sign. -/
def splitAttached (cs : List Char) : List Char × Option (List Char) :=
  match cs.span (· != '=') with
  | (name, _ :: text) => (name, some text)
  | (name, []) => (name, none)

namespace Level

/-- The switch of a level that has a letter. -/
def ofLetter? (level : Level) (c : Char) : Option Switch :=
  level.switches.find? (·.letter? = some c)

/-- The switches of a level whose names begin with a text. -/
def beginningWith (level : Level) (cs : List Char) : List Switch :=
  level.switches.filter fun s => cs.isPrefixOf s.name.toList

/-- A long switch, which may be cut short as long as only one switch of the level has it. -/
def longWord (level : Level) (cs : List Char) : Except Halt (Option Word) :=
  let (name, text) := splitAttached cs
  match level.switches.find? (·.name.toList = name) with
  | some s => .ok (some (.long s text))
  | none =>
    match level.beginningWith name with
    | [] => .ok none
    | [s] => .ok (some (.long s text))
    | several => .error (.usage level.program (.ambiguous cs several))

/-- An argument that begins with a hyphen and names no switch.  It is an operand if it is a negative
number or has a space in it. -/
def hyphenWord (cs : List Char) : Word :=
  if isNegativeNumber cs || cs.contains ' ' then .operand else .unknown

/-- What an argument looks like to a level. -/
def classify (level : Level) (cs : List Char) : Except Halt Word :=
  match cs with
  | ['-', '-'] => .ok .terminator
  | '-' :: '-' :: _ => return (← level.longWord cs).getD (hyphenWord cs)
  | '-' :: c :: text =>
    match level.ofLetter? c with
    | some s => .ok (.short s text)
    | none => .ok (hyphenWord cs)
  | _ => .ok .operand

/-- The arguments with their forms, up to the terminator, after which all are operands. -/
def words (level : Level) :
    List (List Char) → Except Halt (List (List Char × Word))
  | [] => .ok []
  | cs :: rest => do
    match ← level.classify cs with
    | .terminator => return (cs, .terminator) :: rest.map (·, .operand)
    | w => return (cs, w) :: (← level.words rest)

/-! ## the use of words -/

/-- Switches a switch on, which for help ends the reading. -/
def switchOn (s : Switch) : Except Halt Unit := if s = .help then .error .help else .ok ()

/-- A short switch and the text after it, whose letters have to be short switches as well. -/
def cluster (level : Level) (s : Switch) : List Char → Except Halt (List Switch)
  | [] => .ok [s]
  | c :: text =>
    match level.ofLetter? c with
    | some t => return s :: (← level.cluster t text)
    | none => .error (.usage level.program (.ignoredText s (c :: text)))

/-- The switches of an argument that begins with a short one.  An equals sign may set the text
apart from the first letter, but then there has to be a text. -/
def shortSwitches (level : Level) (s : Switch) : List Char → Except Halt (List Switch)
  | ['='] => .error (.usage level.program (.ignoredText s []))
  | '=' :: text => level.cluster s text
  | text => level.cluster s text

/-- The switches that an argument turns on, and what it leaves over. -/
def wordSwitches (level : Level) (cs : List Char) :
    Word → Except Halt (List Switch × List (List Char))
  | .long s none => .ok ([s], [])
  | .long s (some text) => .error (.usage level.program (.ignoredText s text))
  | .short s text => return (← level.shortSwitches s text, [])
  | _ => .ok ([], [cs])

/-- An argument put to use: its switches are turned on, and if it is none it is left over. -/
def useWord (level : Level) (cs : List Char) (w : Word) (use : Use) : Except Halt Use := do
  let (switches, leftOver) ← level.wordSwitches cs w
  switches.forM switchOn
  return { use with
    switches := use.switches ++ switches
    leftOver := use.leftOver ++ leftOver }

/-- The words put to use in order.  While the place for an operand is vacant the first operand
fills it, together with a terminator directly after it; a terminator that comes while the place
is vacant is dropped, and the next argument, if any, fills it. -/
def useWords (level : Level) (vacant : Bool) (use : Use) :
    List (List Char × Word) → Except Halt Use
  | [] => .ok use
  | (cs, .operand) :: rest =>
    if vacant then
      let use := { use with operand := some cs }
      match rest with
      | (_, .terminator) :: more =>
        .ok { use with leftOver := use.leftOver ++ more.map Prod.fst }
      | _ => level.useWords false use rest
    else level.useWords false { use with leftOver := use.leftOver ++ [cs] } rest
  | (cs, .terminator) :: rest =>
    match vacant, rest.map Prod.fst with
    | true, [] => .ok use
    | true, operand :: more =>
      .ok { use with operand := some operand, leftOver := use.leftOver ++ more }
    | false, more => .ok { use with leftOver := use.leftOver ++ cs :: more }
  | (cs, w) :: rest => do level.useWords vacant (← level.useWord cs w use) rest

/-- All the arguments of a level put to use. -/
def read (level : Level) (args : List (List Char)) : Except Halt Use := do
  level.useWords level.takesOperand ⟨[], none, []⟩ (← level.words args)

/-! ## the level above the commands -/

/-- The words before the name of a command put to use, the name, and the arguments after it.  A
terminator in the place of the name is taken for one if any argument follows. -/
def splitCommand (level : Level) (use : Use) :
    List (List Char × Word) → Except Halt (Use × Option (List Char × List (List Char)))
  | [] => .ok (use, none)
  | (cs, .operand) :: rest => .ok (use, some (cs, rest.map Prod.fst))
  | (cs, .terminator) :: rest =>
    if rest.isEmpty then .ok ({ use with leftOver := use.leftOver ++ [cs] }, none)
    else .ok (use, some (cs, rest.map Prod.fst))
  | (cs, w) :: rest => do level.splitCommand (← level.useWord cs w use) rest

end Level

end LineCalc.CommandLine
