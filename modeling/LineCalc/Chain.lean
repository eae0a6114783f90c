import LineCalc.Expr.Evaluation

/-!
# LineCalc.Chain

Chains: values joined by operators, without parentheses.  A chain is reduced
in two passes.  The first replaces every run of products and quotients by its
value, the second the sums and differences that are left, each from left to
right.  This is what precedence and association come down to where nothing
is grouped.
-/

namespace LineCalc

/-- A value, and values after it with an operator in front of each. -/
structure Chain where
  first : Float
  rest : List (Operator × Float)

namespace Chain

/-- Two values under an operator, unless the policy refuses. -/
def combine (a : Arithmetic) (d : Division) (o : Operator) (x y : Float) : Option Float :=
  if a.refuses d o y then none else some (a.apply o x y)

/-- The first pass: the chain of the sums and differences, whose values are those of the runs
between them. -/
def products (a : Arithmetic) (d : Division) (x : Float) :
    List (Operator × Float) → Option Chain
  | [] => some ⟨x, []⟩
  | (o, y) :: rest =>
    if o.isProduct then (combine a d o x y).bind fun z => products a d z rest
    else (products a d y rest).map fun c => ⟨x, (o, c.first) :: c.rest⟩

/-- The second pass: the values joined from left to right. -/
def sums (a : Arithmetic) (d : Division) (c : Chain) : Option Float :=
  c.rest.foldlM (fun x (o, y) => combine a d o x y) c.first

/-- The value of a chain; none if the policy refuses a division. -/
def reduce (a : Arithmetic) (d : Division) (c : Chain) : Option Float :=
  (products a d c.first c.rest).bind (sums a d)

end Chain

end LineCalc
