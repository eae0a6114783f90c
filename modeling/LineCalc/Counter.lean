import LineCalc.Reading

/-!
# LineCalc.Counter

The verdict on a list of tokens by a machine with one counter.  It keeps what
it expects next and how many parentheses are open, reads the tokens once from
left to right, and makes no expression; `Reading` makes one, with the same
verdict and the same fault.
-/

namespace LineCalc

/-- What may come next. -/
inductive Expecting where
  | operand
  | signedOperand
  /-- An operator, or the end of what is open. -/
  | operator
  deriving DecidableEq

namespace Counter

/-- What a token leads to: a fault, the end, or the next state. -/
inductive Move where
  | reject (f : GrammarFault)
  | accept
  | next (expecting : Expecting) (depth : Nat)
  deriving DecidableEq

/-- An operand is expected and `t` comes; `afterSign` says that it cannot be a sign. -/
def moveOperand (limit depth : Nat) (afterSign : Bool) (t : Token) : Move :=
  match t.kind with
  | .number => .next .operator depth
  | .plus | .minus => if afterSign then .reject (.invalid t) else .next .signedOperand depth
  | .openParen =>
    if depth < limit then .next .operand (depth + 1) else .reject (.tooDeep t)
  | _ => .reject (.invalid t)

/-- An operator is expected and `t` comes after `previous`. -/
def moveOperator (depth : Nat) (previous t : Token) : Move :=
  match t.kind, depth with
  | .closeParen, depth + 1 => .next .operator depth
  | .eof, 0 => .accept
  | k, depth =>
    if k.operator?.isSome then .next .operand depth
    else if depth = 0 then .reject (.leftOver t)
    else .reject (.unclosed previous t)

/-- One step of the machine, by what it expects. -/
def move (limit depth : Nat) (previous t : Token) : Expecting → Move
  | .operand => moveOperand limit depth false t
  | .signedOperand => moveOperand limit depth true t
  | .operator => moveOperator depth previous t

/-- The verdict from a state on.  A list that stops short is read as if the line ended there. -/
def verdict (limit : Nat) (expecting : Expecting) (depth : Nat) (previous : Token) :
    List Token → Except GrammarFault Unit
  | [] =>
    match move limit depth previous .endOfLine expecting with
    | .reject f => .error f
    | _ => .ok ()
  | t :: ts =>
    match move limit depth previous t expecting with
    | .reject f => .error f
    | .accept => .ok ()
    | .next expecting depth => verdict limit expecting depth t ts

/-- Whether a line of tokens is an expression, and otherwise the first fault. -/
def check (limit : Nat) (ts : List Token) : Except GrammarFault Unit :=
  verdict limit .operand 0 .endOfLine ts

end Counter

end LineCalc
