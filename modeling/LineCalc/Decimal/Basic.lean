/-!
# LineCalc.Decimal.Basic

Decimal numbers `digits * 10 ^ exponent`, exact and without a limit.  The
same value has many such forms; `num` and `den` give it as a quotient of
natural numbers.
-/

namespace LineCalc

/-- The number `digits * 10 ^ exponent`. -/
structure Decimal where
  digits : Nat
  exponent : Int
  deriving DecidableEq, Repr

namespace Decimal

/-- The numerator of the value as a quotient. -/
def num (d : Decimal) : Nat := d.digits * Nat.pow 10 d.exponent.toNat

/-- The denominator of the value as a quotient, a power of ten. -/
def den (d : Decimal) : Nat := Nat.pow 10 (-d.exponent).toNat

/-- A power of ten is no zero. -/
theorem den_pos (d : Decimal) : 0 < d.den := Nat.pow_pos (by decide)

end Decimal

end LineCalc
