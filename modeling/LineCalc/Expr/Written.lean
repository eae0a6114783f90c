import LineCalc.Expr.Basic

/-!
# LineCalc.Expr.Written

Expressions as a line has them, with the fewest parentheses.  An operand is
put between parentheses only where the grammar would read it otherwise: a sum
on the left of a product, a product or sum on its right, a sum on the right
of a sum, and under a sign everything but a number.
-/

namespace LineCalc.Expr

/-- Whether an expression is two operands under an operator. -/
def isBinary : Expr → Bool
  | binary .. => true
  | _ => false

/-- Whether an expression is a sum or difference. -/
def isSum : Expr → Bool
  | binary o _ _ => !o.isProduct
  | _ => false

/-- Whether an expression is a number. -/
def isLiteral : Expr → Bool
  | literal .. => true
  | _ => false

/-- Whether an operand on the left of an operator is put between parentheses. -/
def wrapsLeft (o : Operator) (e : Expr) : Bool := o.isProduct && e.isSum

/-- Whether an operand on the right of an operator is put between parentheses. -/
def wrapsRight (o : Operator) (e : Expr) : Bool := if o.isProduct then e.isBinary else e.isSum

/-- A text, between parentheses if that is asked for. -/
def wrap (parentheses : Bool) (cs : List Char) : List Char :=
  if parentheses then '(' :: (cs ++ [')']) else cs

/-- The text of an expression as a line has it. -/
def written : Expr → List Char
  | literal _ lexeme => lexeme
  | signed s e => s.kind.symbol ++ wrap (!e.isLiteral) e.written
  | binary o l r =>
    wrap (wrapsLeft o l) l.written ++ o.kind.symbol ++ wrap (wrapsRight o r) r.written

/-- How deep the parentheses of `written` are nested. -/
def nesting : Expr → Nat
  | literal .. => 0
  | signed _ e => e.nesting + (!e.isLiteral).toNat
  | binary o l r =>
    max (l.nesting + (wrapsLeft o l).toNat) (r.nesting + (wrapsRight o r).toNat)

end LineCalc.Expr
