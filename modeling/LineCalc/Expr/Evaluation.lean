import LineCalc.Binary64
import LineCalc.Expr.Basic

/-!
# LineCalc.Expr.Evaluation

The value of an expression.  `Expr.evaluate` works through a list of tasks
with a stack of values beside it, so that the depth of an expression costs no
recursion: to visit a node is to visit its operands and then to finish it,
and to finish it is to replace their values by its own.  `Expr.denote` is the
same value by recursion on the expression.

Division by zero is a value of its own in binary64.  Under the strict policy
it is refused instead, and the refusal names the node.
-/

namespace LineCalc

/-- What becomes of a division by zero. -/
inductive Division where
  /-- An infinity or a `NaN`, as binary64 has it. -/
  | ieee
  /-- A refusal that names the node. -/
  | strict
  deriving DecidableEq

/-- The operations that an evaluation rests on. -/
structure Arithmetic where
  neg : Float → Float
  add : Float → Float → Float
  sub : Float → Float → Float
  mul : Float → Float → Float
  div : Float → Float → Float
  /-- Whether a divisor is a zero, of either sign. -/
  isZero : Float → Bool

namespace Arithmetic

/-- The arithmetic of doubles.  Zero of either sign is told by its pattern. -/
def binary64 : Arithmetic where
  neg x := -x
  add x y := x + y
  sub x y := x - y
  mul x y := x * y
  div x y := x / y
  isZero x := Binary64.pattern x = 0

/-- An operand under a sign.  A plus changes nothing. -/
def sign (a : Arithmetic) : Sign → Float → Float
  | .plus, x => x
  | .minus, x => a.neg x

/-- Two operands under an operator. -/
def apply (a : Arithmetic) : Operator → Float → Float → Float
  | .add => a.add
  | .sub => a.sub
  | .mul => a.mul
  | .div => a.div

/-- Whether the strict policy refuses an operator with a right operand. -/
def refuses (a : Arithmetic) (d : Division) (o : Operator) (right : Float) : Bool :=
  d = .strict && o = .div && a.isZero right

end Arithmetic

/-- Why an evaluation ends without a value. -/
inductive Stop where
  /-- The node divides by zero under the strict policy. -/
  | zeroDivision (node : Expr)
  /-- The values on the stack are not the values of the operands of the node. -/
  | unbalanced (node : Expr)

namespace Stop

/-- The text of the error, with the node written out. -/
def message : Stop → String
  | zeroDivision node => "Division by zero in " ++ node.render
  | unbalanced node => "Missing operand in " ++ node.render

end Stop

namespace Expr

/-! ## by recursion -/

/-- The value of an expression, by recursion: the left operand before the right, and both before
the operator. -/
def denote (a : Arithmetic) (d : Division) : Expr → Except Stop Float
  | literal v _ => .ok v
  | signed s e => do
    let x ← e.denote a d
    return a.sign s x
  | binary o l r => do
    let x ← l.denote a d
    let y ← r.denote a d
    if a.refuses d o y then throw (.zeroDivision (binary o l r))
    return a.apply o x y

/-! ## by tasks -/

/-- What is left to do with a node. -/
inductive Task where
  /-- The value of the node is to be put on the stack. -/
  | visit (e : Expr)
  /-- The values of its operands are there, and are to be replaced by its own. -/
  | finish (e : Expr)

namespace Task

/-- How many steps a task amounts to. -/
def weight : Task → Nat
  | visit e => 2 * e.size
  | finish _ => 1

/-- How many steps a list of tasks amounts to. -/
def weights : List Task → Nat
  | [] => 0
  | t :: rest => t.weight + weights rest

end Task

/-- The stack of values, the last one first, after a node takes the values of its operands from it
and puts its own there. -/
def finish (a : Arithmetic) (d : Division) : Expr → List Float → Except Stop (List Float)
  | literal v _, values => .ok (v :: values)
  | signed s _, x :: values => .ok (a.sign s x :: values)
  | binary o l r, y :: x :: values =>
    if a.refuses d o y then .error (.zeroDivision (binary o l r))
    else .ok (a.apply o x y :: values)
  | e, _ => .error (.unbalanced e)

/-- What a visit of a node amounts to. -/
def tasks (e : Expr) : List Task := e.operands.map .visit ++ [.finish e]

/-- Visiting a node takes one step more than the tasks it amounts to. -/
theorem weights_tasks_append (e : Expr) (rest : List Task) :
    Task.weights (e.tasks ++ rest) + 1 = Task.weights (.visit e :: rest) := by
  cases e <;> simp [tasks, operands, Task.weights, Task.weight, size] <;> omega

/-- The stack of values when all the tasks are done. -/
def run (a : Arithmetic) (d : Division) : List Task → List Float → Except Stop (List Float)
  | [], values => .ok values
  | .visit e :: rest, values => run a d (e.tasks ++ rest) values
  | .finish e :: rest, values =>
    match finish a d e values with
    | .ok values => run a d rest values
    | .error s => .error s
termination_by tasks => Task.weights tasks
decreasing_by
  · exact Nat.lt_of_succ_le (Nat.le_of_eq (weights_tasks_append e rest))
  · simp [Task.weights, Task.weight]

/-- The value of an expression by some arithmetic. -/
def evaluateWith (a : Arithmetic) (d : Division) (e : Expr) : Except Stop Float :=
  match run a d [.visit e] [] with
  | .ok [x] => .ok x
  | .ok _ => .error (.unbalanced e)
  | .error s => .error s

/-- The value of an expression in binary64. -/
def evaluate (d : Division) (e : Expr) : Except Stop Float := e.evaluateWith .binary64 d

end Expr

end LineCalc
