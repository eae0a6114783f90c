import LineCalc.Expr.Basic

/-!
# LineCalc.Grammar

The grammar of expressions as a relation between tokens and the expression
that they are.  `Derives depth rank ts e` says that `ts`, with parentheses
nested at most `depth` deep, are an expression `e` of a rank of the grammar:
repetitions lean to the left, parentheses leave no trace, and a sign belongs
to one primary.
-/

namespace LineCalc

/-- The ranks of the grammar, the one that binds most closely first. -/
inductive Rank where
  | primary
  | unary
  | multiplication
  | addition
  deriving DecidableEq

/-- The tokens are an expression of a rank. -/
inductive Derives : Nat → Rank → List Token → Expr → Prop where
  | number {depth : Nat} {t : Token} {x : Float} :
      t.kind = .number → t.value = .ok x →
      Derives depth .primary [t] (.literal x t.lexeme)
  | parentheses {depth : Nat} {opening closing : Token} {ts : List Token} {e : Expr} :
      opening.kind = .openParen → closing.kind = .closeParen →
      Derives depth .addition ts e →
      Derives (depth + 1) .primary (opening :: ts ++ [closing]) e
  | unsigned {depth : Nat} {ts : List Token} {e : Expr} :
      Derives depth .primary ts e → Derives depth .unary ts e
  | signed {depth : Nat} {t : Token} {s : Sign} {ts : List Token} {e : Expr} :
      t.kind.sign? = some s → Derives depth .primary ts e →
      Derives depth .unary (t :: ts) (.signed s e)
  | factor {depth : Nat} {ts : List Token} {e : Expr} :
      Derives depth .unary ts e → Derives depth .multiplication ts e
  | multiply {depth : Nat} {t : Token} {o : Operator} {ts us : List Token} {l r : Expr} :
      Derives depth .multiplication ts l → t.kind.multiplicative? = some o →
      Derives depth .unary us r →
      Derives depth .multiplication (ts ++ t :: us) (.binary o l r)
  | term {depth : Nat} {ts : List Token} {e : Expr} :
      Derives depth .multiplication ts e → Derives depth .addition ts e
  | add {depth : Nat} {t : Token} {o : Operator} {ts us : List Token} {l r : Expr} :
      Derives depth .addition ts l → t.kind.additive? = some o →
      Derives depth .multiplication us r →
      Derives depth .addition (ts ++ t :: us) (.binary o l r)

namespace Derives

/-- Every expression has a token. -/
theorem ne_nil {depth : Nat} {rank : Rank} {ts : List Token} {e : Expr}
    (h : Derives depth rank ts e) : ts ≠ [] := by
  induction h <;> simp_all

/-- Room for more parentheses takes nothing away. -/
theorem mono {depth wider : Nat} {rank : Rank} {ts : List Token} {e : Expr}
    (h : Derives depth rank ts e) (le : depth ≤ wider) : Derives wider rank ts e := by
  induction h generalizing wider with
  | number hk hv => exact .number hk hv
  | parentheses ho hc _ ih =>
    obtain ⟨w, rfl⟩ : ∃ w, wider = w + 1 := ⟨wider - 1, by omega⟩
    exact .parentheses ho hc (ih (by omega))
  | unsigned _ ih => exact .unsigned (ih le)
  | signed hs _ ih => exact .signed hs (ih le)
  | factor _ ih => exact .factor (ih le)
  | multiply _ ho _ ihl ihr => exact .multiply (ihl le) ho (ihr le)
  | term _ ih => exact .term (ih le)
  | add _ ho _ ihl ihr => exact .add (ihl le) ho (ihr le)

end Derives

end LineCalc
