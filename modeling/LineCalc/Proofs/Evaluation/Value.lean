import LineCalc.Expr.Evaluation

/-!
# LineCalc.Proofs.Evaluation.Value

The value of an expression and the divisions that the strict policy refuses,
apart from each other.  `Expr.value` knows of no policy and always has an
answer; `Expr.dividesByZero` looks at one node.  The recursion that mixes the
two, `Expr.denote`, is the value under the one policy, and under the other
the value unless some node divides by zero, of which the first in the order
of evaluation is named: `denote_ieee` and `denote_strict`.
-/

namespace LineCalc

namespace Expr

variable (a : Arithmetic)

/-- The value of an expression, with division by zero a value like any other. -/
def value : Expr → Float
  | literal v _ => v
  | signed s e => a.sign s e.value
  | binary o l r => a.apply o l.value r.value

/-- Whether a node is a division whose right operand is a zero. -/
def dividesByZero : Expr → Bool
  | binary .div _ r => a.isZero (r.value a)
  | _ => false

/-- What the strict policy refuses of an operator is a division by zero. -/
theorem dividesByZero_binary (o : Operator) (l r : Expr) :
    dividesByZero a (binary o l r) = a.refuses .strict o (r.value a) := by
  cases o <;> simp [dividesByZero, Arithmetic.refuses]

/-- Under the IEEE policy every expression has its value. -/
theorem denote_ieee (e : Expr) : e.denote a .ieee = .ok (e.value a) := by
  induction e with
  | literal v lexeme => rfl
  | signed s e ih => simp only [denote, ih, value]; rfl
  | binary o l r ihl ihr => simp only [denote, ihl, ihr, value]; rfl

/-- The value under the strict policy, or the refusal of a node. -/
def strictOutcome (e : Expr) : Option Expr → Except Stop Float
  | none => .ok (e.value a)
  | some node => .error (.zeroDivision node)

/-- Where division by zero is refused, the first node that divides by zero ends the evaluation, and
without one the value is the same. -/
theorem denote_strict (e : Expr) :
    e.denote a .strict = strictOutcome a e (e.postOrder.find? (dividesByZero a)) := by
  induction e with
  | literal v lexeme => rfl
  | signed s e ih =>
      rw [denote, ih, postOrder, List.find?_append]
      cases e.postOrder.find? (dividesByZero a) <;> rfl
  | binary o l r ihl ihr =>
      rw [denote, ihl, ihr, postOrder, List.find?_append, List.find?_append]
      cases l.postOrder.find? (dividesByZero a) with
      | some node => rfl
      | none =>
          cases r.postOrder.find? (dividesByZero a) with
          | some node => rfl
          | none =>
              rw [Option.none_or, Option.none_or, List.find?_singleton, dividesByZero_binary]
              simp only [strictOutcome, bind, Except.bind]
              cases a.refuses .strict o (r.value a) <;> rfl

end Expr

end LineCalc
