/-!
# LineCalc.Binary64

The magnitudes of the binary64 format as natural numbers.  A double is a sign
and a *pattern*, the lower 63 bits of its encoding.  The patterns below
`infinity` stand for the finite magnitudes in ascending order, and each of
them is a whole number of units of `2^-1074`, the least positive double:

```
units n = significand n * 2 ^ scale n
```

The pattern `infinity` continues the row (`units infinity` is `2^1024`), so
that rounding needs no case of its own at the upper end.
-/

namespace LineCalc.Binary64

/-! ## patterns -/

/-- The pattern of the infinities, which all finite patterns are below. -/
def infinity : Nat := 0x7FF0000000000000

/-- The significand of a pattern as a whole number, with its leading bit. -/
def significand (n : Nat) : Nat := if n < Nat.pow 2 52 then n else Nat.pow 2 52 + n % Nat.pow 2 52

/-- The power of two that a significand is multiplied by, in units of `2^-1074`. -/
def scale (n : Nat) : Nat := n / Nat.pow 2 52 - 1

/-- The value of a pattern, as a multiple of the least positive double. -/
def units (n : Nat) : Nat := significand n * Nat.pow 2 (scale n)

/-- The least positive double is `2 ^ (-1074)`. -/
def unitPlace : Nat := 1074

/-- How many times the least positive double goes into one. -/
def unitsPerOne : Nat := Nat.pow 2 unitPlace

/-- The first patterns count the units themselves. -/
theorem units_of_lt {n : Nat} (h : n < Nat.pow 2 53) : units n = n := by
  rw [Nat.pow_eq] at h
  have hs : scale n = 0 := by simp only [scale, Nat.pow_eq]; omega
  have hm : significand n = n := by simp only [significand, Nat.pow_eq]; split <;> omega
  rw [units, Nat.pow_eq, hs, hm, Nat.pow_zero, Nat.mul_one]

/-- A pattern from the scale and the significand it is made of. -/
theorem units_add {s m : Nat} (lower : Nat.pow 2 52 ≤ m) (upper : m < Nat.pow 2 53) :
    units (s * Nat.pow 2 52 + m) = m * Nat.pow 2 s := by
  simp only [Nat.pow_eq] at lower upper ⊢
  have hs : scale (s * 2 ^ 52 + m) = s := by simp only [scale, Nat.pow_eq]; omega
  have hm : significand (s * 2 ^ 52 + m) = m := by
    simp only [significand, Nat.pow_eq]
    split <;> omega
  rw [units, Nat.pow_eq, hs, hm]

/-- The hidden bit and the 52 stored ones, and no more. -/
theorem significand_lt (n : Nat) : significand n < Nat.pow 2 53 := by
  simp only [significand, Nat.pow_eq]; split <;> omega

/-- A pattern is its scale and its significand side by side. -/
theorem scale_significand (n : Nat) : scale n * Nat.pow 2 52 + significand n = n := by
  simp only [scale, significand, Nat.pow_eq]; split <;> omega

/-- The scale is what the magnitude has beyond 53 bits. -/
theorem log2_units (n : Nat) : (units n).log2 - 52 = scale n := by
  by_cases h : n < 2 ^ 53
  · have hs : scale n = 0 := by simp only [scale, Nat.pow_eq]; omega
    rw [units_of_lt h, hs]
    have : n.log2 < 53 := by
      by_cases h0 : n = 0
      · subst h0; decide
      · exact (Nat.log2_lt h0).2 h
    omega
  · have hm : 2 ^ 52 ≤ significand n := by simp only [significand, Nat.pow_eq]; split <;> omega
    have hm0 : significand n ≠ 0 := by have := Nat.two_pow_pos 52; omega
    have hl : (significand n).log2 = 52 := by
      have h₁ : (significand n).log2 < 53 := (Nat.log2_lt hm0).2 (significand_lt n)
      have h₂ : 52 ≤ (significand n).log2 := (Nat.le_log2 hm0).2 hm
      omega
    have : (units n).log2 = 52 + scale n := by
      rw [units, Nat.pow_eq]
      have hne : significand n * 2 ^ scale n ≠ 0 := by
        have := Nat.two_pow_pos (scale n); exact Nat.mul_ne_zero hm0 (by omega)
      apply Nat.le_antisymm
      · have : (significand n * 2 ^ scale n).log2 < 53 + scale n := by
          rw [Nat.log2_lt hne, Nat.pow_add]
          exact Nat.mul_lt_mul_of_pos_right (significand_lt n) (Nat.two_pow_pos _)
        omega
      · rw [Nat.le_log2 hne, Nat.pow_add]
        exact Nat.mul_le_mul_right _ hm
    omega

/-- Only the pattern of zero stands for zero. -/
theorem units_pos {n : Nat} (h : 0 < n) : 0 < units n := by
  have hs : 0 < significand n := by simp only [significand, Nat.pow_eq]; split <;> omega
  exact Nat.mul_pos hs (Nat.two_pow_pos _)

/-! ## doubles -/

/-- The bits of a double without its sign.  Among finite doubles the greater pattern is the greater
magnitude. -/
def pattern (x : Float) : Nat := x.toBits.toNat % Nat.pow 2 63

/-- Whether the sign of a double is negative; zeros have a sign too. -/
def isNegative (x : Float) : Bool := Nat.pow 2 63 ≤ x.toBits.toNat

/-- The double of a sign and a pattern. -/
def ofPattern (negative : Bool) (n : Nat) : Float :=
  Float.ofBits ((if negative then Nat.pow 2 63 else 0) + n).toUInt64

/-- The infinity above all doubles. -/
def posInfinity : Float := ofPattern false infinity

/-- The quiet `NaN` without a payload. -/
def notANumber : Float := ofPattern false (infinity + Nat.pow 2 51)

/-- Whether a double is neither infinite nor a `NaN`. -/
def isFinite (x : Float) : Bool := pattern x < infinity

/-- The magnitude of a double without its fraction. -/
def floor (x : Float) : Nat := units (pattern x) / unitsPerOne

/-- The whole number that a finite double's magnitude is, if it is whole. -/
def whole? (x : Float) : Option Nat :=
  if isFinite x && units (pattern x) % unitsPerOne = 0 then some (floor x) else none

end LineCalc.Binary64
