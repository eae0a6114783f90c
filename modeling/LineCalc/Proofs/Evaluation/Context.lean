import LineCalc.Proofs.Evaluation.Reduction

/-!
# LineCalc.Proofs.Evaluation.Context

Expressions with a place in them for another one.  The value of an expression
and whether it is refused depend on what is in the place by its value alone:
`Context.outcome?_fill`.
-/

namespace LineCalc

variable {a : Arithmetic} {d : Division} {e f : Expr}

/-- An expression with a hole in it. -/
inductive Context where
  | hole
  | signed (sign : Sign) (operand : Context)
  | left (op : Operator) (l : Context) (r : Expr)
  | right (op : Operator) (l : Expr) (r : Context)

namespace Context

/-- The expression with another one in place of the hole. -/
def fill : Context → Expr → Expr
  | hole, e => e
  | signed s c, e => .signed s (c.fill e)
  | left o c r, e => .binary o (c.fill e) r
  | right o l c, e => .binary o l (c.fill e)

/-- Expressions with one outcome have one in every context. -/
theorem outcome?_fill (c : Context) (h : e.outcome? a d = f.outcome? a d) :
    (c.fill e).outcome? a d = (c.fill f).outcome? a d := by
  induction c with
  | hole => exact h
  | signed s c ih => rw [fill, fill, Expr.outcome?_signed, Expr.outcome?_signed, ih]
  | left o c r ih | right o l c ih =>
      rw [fill, fill, Expr.outcome?_binary, Expr.outcome?_binary, ih]

end Context

end LineCalc
