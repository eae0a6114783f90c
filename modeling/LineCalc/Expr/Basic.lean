import LineCalc.Token

/-!
# LineCalc.Expr.Basic

Expressions: numbers, a sign before an operand, and an operator between two.
Parentheses leave no trace.  A number keeps its lexeme, which is how it is
written again; `Expr.rendered` puts every sign and operator in front of its
operands and a pair of parentheses around them.
-/

namespace LineCalc

/-- The signs in front of an operand. -/
inductive Sign where
  | plus
  | minus
  deriving DecidableEq

/-- The operators between two operands. -/
inductive Operator where
  | add
  | sub
  | mul
  | div
  deriving DecidableEq

namespace Sign

/-- The kind of the token of a sign. -/
def kind : Sign → Kind
  | plus => .plus
  | minus => .minus

end Sign

namespace Operator

/-- The kind of the token of an operator. -/
def kind : Operator → Kind
  | add => .plus
  | sub => .minus
  | mul => .star
  | div => .slash

/-- Whether an operator makes a product or quotient, which binds its operands before a sum or
difference does. -/
def isProduct : Operator → Bool
  | mul | div => true
  | add | sub => false

end Operator

namespace Kind

/-- The sign that a kind of token is in front of an operand. -/
def sign? : Kind → Option Sign
  | plus => some .plus
  | minus => some .minus
  | _ => none

/-- The operator of a sum or difference that a kind of token is. -/
def additive? : Kind → Option Operator
  | plus => some .add
  | minus => some .sub
  | _ => none

/-- The operator of a product or quotient that a kind of token is. -/
def multiplicative? : Kind → Option Operator
  | star => some .mul
  | slash => some .div
  | _ => none

/-- The operator that a kind of token is between two operands. -/
def operator? (k : Kind) : Option Operator := k.additive?.or k.multiplicative?

/-- A sign is that of its token. -/
theorem sign?_kind (s : Sign) : s.kind.sign? = some s := by cases s <;> rfl

/-- An operator is that of its token. -/
theorem operator?_kind (o : Operator) : o.kind.operator? = some o := by cases o <;> rfl

end Kind

/-- An expression.  A number has its value and the lexeme that it was read from. -/
inductive Expr where
  | literal (value : Float) (lexeme : List Char)
  | signed (sign : Sign) (operand : Expr)
  | binary (op : Operator) (left right : Expr)

/-- Why no node can be made from a token. -/
inductive NodeFault where
  | notSign (k : Kind)
  | notOperator (k : Kind)

namespace NodeFault

/-- The text of the error. -/
def message : NodeFault → String
  | notSign k => "Not a unary operator: " ++ k.fullName
  | notOperator k => "Not a binary operator: " ++ k.fullName

end NodeFault

namespace Expr

/-! ## nodes from tokens -/

/-- The number of a token. -/
def ofNumber (t : Token) : Except ValueFault Expr := t.value.map (literal · t.lexeme)

/-- An operand under the sign of a token. -/
def ofSign (k : Kind) (operand : Expr) : Except NodeFault Expr :=
  match k.sign? with
  | some s => .ok (signed s operand)
  | none => .error (.notSign k)

/-- Two operands under the operator of a token. -/
def ofOperator (k : Kind) (left right : Expr) : Except NodeFault Expr :=
  match k.operator? with
  | some o => .ok (binary o left right)
  | none => .error (.notOperator k)

/-! ## views -/

/-- The operands of a node, from left to right. -/
def operands : Expr → List Expr
  | literal .. => []
  | signed _ e => [e]
  | binary _ l r => [l, r]

/-- How many nodes an expression has. -/
def size : Expr → Nat
  | literal .. => 1
  | signed _ e => e.size + 1
  | binary _ l r => l.size + r.size + 1

/-- The nodes in the order in which they are evaluated: operands before their operator, and the
left operand before the right. -/
def postOrder : Expr → List Expr
  | literal v s => [literal v s]
  | signed s e => e.postOrder ++ [signed s e]
  | binary o l r => l.postOrder ++ r.postOrder ++ [binary o l r]

/-- The lexemes, signs and operators in the order of a line: an operator between its operands. -/
def inOrder : Expr → List Char
  | literal _ lexeme => lexeme
  | signed s e => s.kind.symbol ++ e.inOrder
  | binary o l r => l.inOrder ++ o.kind.symbol ++ r.inOrder

/-- The text of an expression with every sign and operator in front of its operands. -/
def rendered : Expr → List Char
  | literal _ lexeme => lexeme
  | signed s e => '(' :: (s.kind.symbol ++ ' ' :: e.rendered ++ [')'])
  | binary o l r => '(' :: (o.kind.symbol ++ ' ' :: l.rendered ++ ' ' :: r.rendered ++ [')'])

/-- `rendered` in front of a text, in time linear in the length however deep the expression. -/
def renderedBefore : Expr → List Char → List Char
  | literal _ lexeme, rest => lexeme ++ rest
  | signed s e, rest => '(' :: (s.kind.symbol ++ ' ' :: e.renderedBefore (')' :: rest))
  | binary o l r, rest =>
    '(' :: (o.kind.symbol ++ ' ' :: l.renderedBefore (' ' :: r.renderedBefore (')' :: rest)))

/-- The linear text is the text. -/
theorem renderedBefore_eq (e : Expr) (rest : List Char) :
    e.renderedBefore rest = e.rendered ++ rest := by
  induction e generalizing rest with
  | literal v lexeme => rfl
  | signed s e ih => simp [renderedBefore, rendered, ih]
  | binary o l r ihl ihr => simp [renderedBefore, rendered, ihl, ihr]

/-- The text of an expression, for use inside a message. -/
def render (e : Expr) : String := String.ofList (e.renderedBefore [])

/-- So is what messages show. -/
theorem toList_render (e : Expr) : e.render.toList = e.rendered := by
  simp [render, renderedBefore_eq]

/-- Whether two expressions have the same shape, signs and operators, and literals of equal value
and lexeme. -/
def same : Expr → Expr → Bool
  | literal v s, literal w t => v == w && s == t
  | signed s e, signed t f => s == t && same e f
  | binary o l r, binary p m s => o == p && same l m && same r s
  | _, _ => false

end Expr

end LineCalc
