import LineCalc.Binary64
import LineCalc.Decimal.Basic

/-!
# LineCalc.Decimal.Nearest

The binary64 magnitude nearest to a decimal number; of two that are equally
near, the one with an even pattern.  A value of `num / den` units lies
between two multiples of `2 ^ s`, where `s` leaves 53 bits of it, and the
quotient by that step, rounded to a whole number, is the significand.  Since
consecutive patterns continue each other across powers of two, a quotient
that is rounded up to 54 bits needs no correction.
-/

namespace LineCalc

/-- The whole number nearest to a quotient; halfway, the even one. -/
def roundHalfEven (num den : Nat) : Nat :=
  let q := num / den
  let r := num % den
  if 2 * r < den || (2 * r = den && q % 2 = 0) then q else q + 1

/-- The quotient is rounded to one of its two neighbours. -/
theorem roundHalfEven_eq (num den : Nat) :
    roundHalfEven num den = num / den ∨ roundHalfEven num den = num / den + 1 := by
  simp only [roundHalfEven]
  split
  · exact .inl rfl
  · exact .inr rfl

/-- A whole quotient is left as it is. -/
theorem roundHalfEven_mul_left {den : Nat} (q : Nat) (h : 0 < den) :
    roundHalfEven (q * den) den = q := by
  simp [roundHalfEven, Nat.mul_div_cancel _ h, h]

namespace Decimal

open Binary64

/-- The pattern nearest to `num / den` units, as if the format had no upper end. -/
def roundUnits (num den : Nat) : Nat :=
  let s := (num / den).log2 - 52
  s * Nat.pow 2 52 + roundHalfEven num (den * Nat.pow 2 s)

/-- The units of a pattern are rounded to that pattern. -/
theorem roundUnits_units (n : Nat) {den : Nat} (h : 0 < den) :
    roundUnits (units n * den) den = n := by
  have hd : units n * den / den = units n := Nat.mul_div_cancel _ h
  have hp : 0 < den * Nat.pow 2 (scale n) := Nat.mul_pos h (Nat.two_pow_pos _)
  have hu : units n * den = significand n * (den * Nat.pow 2 (scale n)) := by
    rw [units, Nat.mul_assoc, Nat.mul_comm (Nat.pow 2 (scale n))]
  simp only [roundUnits, hd, log2_units]
  rw [hu, roundHalfEven_mul_left _ hp, scale_significand]

/-- Beyond this exponent every decimal number other than zero is greater than the finite doubles. -/
def hugeExponent : Int := 400

/-- Below this exponent a number of so many bits is less than half of the least positive double. -/
def tinyExponent (digits : Nat) : Int := -(400 + digits.log2 : Nat)

/-- The pattern of the double nearest to a decimal number. -/
def nearest (d : Decimal) : Nat :=
  if d.digits = 0 || d.exponent < tinyExponent d.digits then 0
  else if hugeExponent < d.exponent then infinity
  else min infinity (roundUnits (d.num * unitsPerOne) d.den)

/-- Halfway between two doubles the even pattern is taken: `2^53 + 1` goes down, `2^53 + 3` up. -/
example : nearest ⟨2 ^ 53 + 1, 0⟩ = nearest ⟨2 ^ 53, 0⟩ ∧
    nearest ⟨2 ^ 53 + 3, 0⟩ = nearest ⟨2 ^ 53 + 4, 0⟩ := by decide +kernel

/-- Half a unit beyond the greatest finite double is infinite. -/
example : nearest ⟨17976931348623158, 292⟩ = infinity - 1 ∧
    nearest ⟨17976931348623159, 292⟩ = infinity := by decide +kernel

/-- The nearest double of a decimal with a sign. -/
def toDouble (negative : Bool) (d : Decimal) : Float := ofPattern negative d.nearest

end Decimal

end LineCalc
