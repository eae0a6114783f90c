import LineCalc.Decimal.Numeral
import Mathlib.Algebra.Order.Field.Power
import Mathlib.Data.Rat.Cast.Order
import Mathlib.Tactic.FieldSimp
import Mathlib.Tactic.Positivity
import Mathlib.Tactic.Ring

/-!
# LineCalc.Proofs.Decimal.Value

The value of a decimal number as a rational number.  It is the quotient that
is rounded (`value_eq_div`), so values are compared as these quotients are,
across their denominators.  The leading exponent of a number other than zero
says between which powers of ten it lies: `pow_le_value_iff`.
-/

namespace LineCalc.Decimal

variable {a b d : Decimal}

/-- The rational number that a decimal number stands for. -/
def value (d : Decimal) : ℚ := d.digits * 10 ^ d.exponent

/-- The value as the fraction that the model computes with. -/
theorem value_eq_div (d : Decimal) : d.value = d.num / d.den := by
  obtain ⟨m, e⟩ := d
  simp only [value, num, den, Nat.pow_eq]
  by_cases h : 0 ≤ e
  · obtain ⟨k, rfl⟩ := Int.eq_ofNat_of_zero_le h
    simp
  · obtain ⟨k, rfl⟩ : ∃ k : ℕ, e = -k := ⟨(-e).toNat, by omega⟩
    simp [div_eq_mul_inv]

/-- Values are compared as their fractions are, cross by cross. -/
theorem value_le_iff : a.value ≤ b.value ↔ a.num * b.den ≤ b.num * a.den := by
  have ha : (0 : ℚ) < a.den := by exact_mod_cast a.den_pos
  have hb : (0 : ℚ) < b.den := by exact_mod_cast b.den_pos
  rw [value_eq_div, value_eq_div, div_le_div_iff₀ ha hb]
  exact_mod_cast Iff.rfl

/-- Zeros moved from the exponent into the digits leave the value as it is. -/
theorem value_mul_pow (m k : Nat) (e : Int) : value ⟨m * 10 ^ k, e⟩ = value ⟨m, e + k⟩ := by
  simp only [value]
  rw [zpow_add₀ (by norm_num), zpow_natCast]
  push_cast
  ring

/-! ## the leading exponent -/

/-- The power of ten that a number other than zero is below, and not below a tenth of it. -/
def leading (d : Decimal) : Int := (Nat.toDigits 10 d.digits).length + d.exponent

/-- A number is below its leading power of ten. -/
theorem value_lt_pow_leading (d : Decimal) : d.value < 10 ^ d.leading := by
  have hdigits : d.digits < 10 ^ (Nat.toDigits 10 d.digits).length :=
    (Nat.length_toDigits_le_iff (by decide) Nat.length_toDigits_pos).mp le_rfl
  rw [leading, zpow_add₀ (by norm_num), zpow_natCast, value]
  exact mul_lt_mul_of_pos_right (by exact_mod_cast hdigits) (by positivity)

/-- A number other than zero is not below a tenth of its leading power of ten. -/
theorem pow_leading_le_value (h : 0 < d.digits) : 10 ^ (d.leading - 1) ≤ d.value := by
  have hdigits : 10 ^ ((Nat.toDigits 10 d.digits).length - 1) ≤ d.digits := by
    by_cases hone : (Nat.toDigits 10 d.digits).length = 1
    · simpa [hone] using Nat.succ_le_of_lt h
    · by_contra hlt
      have hpos := Nat.length_toDigits_pos (b := 10) (n := d.digits)
      have := (Nat.length_toDigits_le_iff (by decide) (by omega)).mpr (not_le.mp hlt)
      omega
  have hlen : (((Nat.toDigits 10 d.digits).length - 1 : ℕ) : ℤ) =
      (Nat.toDigits 10 d.digits).length - 1 := by
    have := Nat.length_toDigits_pos (b := 10) (n := d.digits)
    omega
  have hsum : d.leading - 1 = ((Nat.toDigits 10 d.digits).length - 1 : ℕ) + d.exponent := by
    rw [hlen, leading]
    ring
  rw [hsum, zpow_add₀ (by norm_num), zpow_natCast, value]
  exact mul_le_mul_of_nonneg_right (by exact_mod_cast hdigits) (by positivity)

/-- The leading exponent says which powers of ten a number is not below. -/
theorem pow_le_value_iff (h : 0 < d.digits) (k : Int) : 10 ^ k ≤ d.value ↔ k < d.leading := by
  constructor
  · intro hle
    exact (zpow_lt_zpow_iff_right₀ (by norm_num)).mp (hle.trans_lt d.value_lt_pow_leading)
  · intro hlt
    exact (zpow_le_zpow_right₀ (by norm_num) (by omega)).trans (pow_leading_le_value h)

end LineCalc.Decimal
