import LineCalc.Proofs.Decimal.Value
import Mathlib.Data.Nat.Log
import Mathlib.Tactic.Linarith

/-!
# LineCalc.Proofs.Decimal.Rounding

Rounding keeps the order.  A quotient is rounded to at most `q` exactly if it
is at most `q + 1/2`, the bound itself included where `q` is even
(`roundHalfEven_le_iff`), and this is monotone in the quotient.  So is the
pattern nearest to a number of units: where two of them have different
scales, the scales decide (`roundUnits_mono`).  The two limits at which the
nearest double is known without rounding agree with it (`nearest_eq`), so it
depends on the value of a decimal number alone and grows with it:
`nearest_mono`.
-/

namespace LineCalc

variable {a b c d : Nat}

/-- A quotient is rounded to `q` or below exactly if it is below `q + 1/2`, or equal to it with `q`
even. -/
theorem roundHalfEven_le_iff (hb : 0 < b) (q : Nat) : roundHalfEven a b ≤ q ↔
    2 * a < (2 * q + 1) * b ∨ 2 * a = (2 * q + 1) * b ∧ q % 2 = 0 := by
  have hdiv : b * (a / b) + a % b = a := Nat.div_add_mod a b
  have hmod : a % b < b := Nat.mod_lt a hb
  have hprod : (2 * q + 1) * b = 2 * (b * q) + b := by ring
  rw [hprod, roundHalfEven]
  obtain h | rfl | h := Nat.lt_trichotomy (a / b) q
  · have : b * (a / b + 1) ≤ b * q := Nat.mul_le_mul_left b h
    rw [Nat.mul_succ] at this
    simp only [Bool.or_eq_true, Bool.and_eq_true, decide_eq_true_eq]
    split <;> omega
  · simp only [Bool.or_eq_true, Bool.and_eq_true, decide_eq_true_eq]
    split <;> omega
  · have : b * (q + 1) ≤ b * (a / b) := Nat.mul_le_mul_left b h
    rw [Nat.mul_succ] at this
    simp only [Bool.or_eq_true, Bool.and_eq_true, decide_eq_true_eq]
    split <;> omega

/-- Rounding keeps the order of the quotients. -/
theorem roundHalfEven_mono (hb : 0 < b) (hd : 0 < d) (h : a * d ≤ c * b) :
    roundHalfEven a b ≤ roundHalfEven c d := by
  have hc := (roundHalfEven_le_iff (a := c) hd _).mp le_rfl
  generalize roundHalfEven c d = q at hc ⊢
  have hle : 2 * a * d ≤ 2 * c * b := by
    rw [Nat.mul_assoc, Nat.mul_assoc]
    exact Nat.mul_le_mul_left 2 h
  rw [roundHalfEven_le_iff hb]
  obtain hc | ⟨hc, hq⟩ := hc
  · left
    have : 2 * a * d < (2 * q + 1) * b * d :=
      calc 2 * a * d ≤ 2 * c * b := hle
        _ < (2 * q + 1) * d * b := Nat.mul_lt_mul_of_pos_right hc hb
        _ = (2 * q + 1) * b * d := by ring
    exact Nat.lt_of_mul_lt_mul_right this
  · have : 2 * a * d ≤ (2 * q + 1) * b * d :=
      calc 2 * a * d ≤ 2 * c * b := hle
        _ = (2 * q + 1) * b * d := by rw [hc]; ring
    have := Nat.le_of_mul_le_mul_right this hd
    omega

namespace Decimal

open Binary64

theorem unitsPerOne_pos : 0 < unitsPerOne := by decide +kernel

/-! ## patterns -/

/-- A quotient of less than `2 ^ (s + 53)` is rounded to at most 54 bits at the scale `s`. -/
theorem roundHalfEven_le_of_lt {s : Nat} (hb : 0 < b) (h : a / b < 2 ^ (s + 53)) :
    roundHalfEven a (b * 2 ^ s) ≤ 2 ^ 53 := by
  have ha : a < 2 ^ 53 * (b * 2 ^ s) := by
    rw [Nat.div_lt_iff_lt_mul hb, Nat.pow_add] at h
    linarith only [h]
  have hpos : 0 < b * 2 ^ s := Nat.mul_pos hb (Nat.two_pow_pos s)
  have hle := roundHalfEven_mono hpos hpos (Nat.mul_le_mul_right (b * 2 ^ s) ha.le)
  rwa [roundHalfEven_mul_left _ hpos] at hle

/-- A quotient of at least `2 ^ (s + 52)` is rounded to no less than 53 bits at the scale `s`. -/
theorem le_roundHalfEven_of_le {s : Nat} (hb : 0 < b) (h : 2 ^ (s + 52) ≤ a / b) :
    2 ^ 52 ≤ roundHalfEven a (b * 2 ^ s) := by
  have ha : 2 ^ 52 * (b * 2 ^ s) ≤ a := by
    rw [Nat.le_div_iff_mul_le hb, Nat.pow_add] at h
    linarith only [h]
  have hpos : 0 < b * 2 ^ s := Nat.mul_pos hb (Nat.two_pow_pos s)
  have hle := roundHalfEven_mono hpos hpos (Nat.mul_le_mul_right (b * 2 ^ s) ha)
  rwa [roundHalfEven_mul_left _ hpos] at hle

/-- Rounding to a double keeps the order of the quotients. -/
theorem roundUnits_mono (hb : 0 < b) (hd : 0 < d) (h : a * d ≤ c * b) :
    roundUnits a b ≤ roundUnits c d := by
  have hquot : a / b ≤ c / d := by
    rw [Nat.le_div_iff_mul_le hd]
    have := Nat.mul_le_mul_right d (Nat.div_mul_le_self a b)
    have : a / b * d * b ≤ c * b := by linarith only [this, h]
    exact Nat.le_of_mul_le_mul_right this hb
  have hscale : (a / b).log2 - 52 ≤ (c / d).log2 - 52 := by
    rw [Nat.log2_eq_log_two, Nat.log2_eq_log_two]
    exact Nat.sub_le_sub_right (Nat.log_mono_right hquot) 52
  simp only [roundUnits, Nat.pow_eq]
  generalize hs : (a / b).log2 - 52 = s at hscale ⊢
  generalize ht : (c / d).log2 - 52 = t at hscale ⊢
  obtain rfl | hlt := Nat.eq_or_lt_of_le hscale
  · have := roundHalfEven_mono (a := a) (c := c) (Nat.mul_pos hb (Nat.two_pow_pos s))
      (Nat.mul_pos hd (Nat.two_pow_pos s)) (by linarith only [Nat.mul_le_mul_right (2 ^ s) h])
    omega
  · have hlow : roundHalfEven a (b * 2 ^ s) ≤ 2 ^ 53 := by
      apply roundHalfEven_le_of_lt hb
      exact Nat.lt_of_lt_of_le Nat.lt_log2_self (Nat.pow_le_pow_right (by decide) (by omega))
    have hhigh : 2 ^ 52 ≤ roundHalfEven c (d * 2 ^ t) := by
      apply le_roundHalfEven_of_le hd
      rw [← Nat.le_log2 (by intro h0; simp [h0] at ht; omega)]
      omega
    have := Nat.mul_le_mul_right (2 ^ 52) (Nat.succ_le_of_lt hlt)
    omega

/-- A greater pattern stands for more units. -/
theorem units_lt_units {m n : Nat} (h : m < n) : units m < units n := by
  by_contra hle
  have := roundUnits_mono (a := units n * 1) (c := units m * 1) Nat.one_pos Nat.one_pos
    (by simpa using hle)
  rw [roundUnits_units _ Nat.one_pos, roundUnits_units _ Nat.one_pos] at this
  omega

/-! ## the nearest double -/

/-- Less than half a unit is rounded to zero. -/
theorem roundUnits_eq_zero (h : 2 * a < b) : roundUnits a b = 0 := by
  have hzero : roundHalfEven a b ≤ 0 :=
    (roundHalfEven_le_iff (by omega) 0).mpr (.inl (by simpa using h))
  have hquot : a / b = 0 := Nat.div_eq_of_lt (by omega)
  simpa [roundUnits, hquot] using hzero

theorem four_mul_unitsPerOne_le {k : Nat} (h : 401 ≤ k) : 4 * unitsPerOne ≤ 10 ^ k :=
  Nat.le_trans (by decide +kernel) (Nat.pow_le_pow_right (by decide) h)

theorem units_infinity_le {k : Nat} (h : 401 ≤ k) : units infinity ≤ 10 ^ k * unitsPerOne :=
  Nat.le_trans (by decide +kernel) (Nat.mul_le_mul_right _ (Nat.pow_le_pow_right (by decide) h))

/-- Below its tiny exponent a number is less than half a unit. -/
theorem two_mul_num_lt_den {d : Decimal} (h : d.exponent < tinyExponent d.digits) :
    2 * (d.num * unitsPerOne) < d.den := by
  obtain ⟨m, e⟩ := d
  simp only [tinyExponent] at h
  obtain ⟨k, rfl⟩ : ∃ k : ℕ, e = -(k : ℕ) := ⟨(-e).toNat, by omega⟩
  have hunits := four_mul_unitsPerOne_le (k := k - m.log2) (by omega)
  have hsplit : 10 ^ k = 10 ^ (k - m.log2) * 10 ^ m.log2 := by
    rw [← Nat.pow_add]
    congr 1
    omega
  have hnum : (-(k : ℤ)).toNat = 0 := by omega
  have hden : (- -(k : ℤ)).toNat = k := by omega
  simp only [num, den, hnum, hden, Nat.pow_eq, Nat.pow_zero, Nat.mul_one, hsplit]
  have hdigits : m < 2 ^ (m.log2 + 1) := Nat.lt_log2_self
  calc 2 * (m * unitsPerOne) < 2 * (2 ^ (m.log2 + 1) * unitsPerOne) :=
        Nat.mul_lt_mul_of_pos_left (Nat.mul_lt_mul_of_pos_right hdigits unitsPerOne_pos)
          Nat.two_pos
    _ = 4 * unitsPerOne * 2 ^ m.log2 := by ring
    _ ≤ 10 ^ (k - m.log2) * 10 ^ m.log2 :=
      Nat.mul_le_mul hunits (Nat.pow_le_pow_left (by decide) _)

/-- Above the huge exponent every number but zero is rounded to infinity. -/
theorem infinity_le_roundUnits {d : Decimal} (hpos : 0 < d.digits)
    (h : hugeExponent < d.exponent) : infinity ≤ roundUnits (d.num * unitsPerOne) d.den := by
  obtain ⟨m, e⟩ := d
  simp only [hugeExponent] at h hpos
  obtain ⟨k, rfl⟩ : ∃ k : ℕ, e = (k : ℕ) := ⟨e.toNat, by omega⟩
  have hden : (-(k : ℤ)).toNat = 0 := by omega
  rw [← roundUnits_units infinity Nat.one_pos]
  apply roundUnits_mono Nat.one_pos (den_pos _)
  simp only [num, den, hden, Int.toNat_natCast, Nat.pow_eq, Nat.pow_zero, Nat.mul_one]
  calc units infinity ≤ 10 ^ k * unitsPerOne := units_infinity_le (by omega)
    _ ≤ m * 10 ^ k * unitsPerOne := Nat.mul_le_mul_right _ (Nat.le_mul_of_pos_left _ hpos)

/-- The limits of the exponent save work and change nothing. -/
theorem nearest_eq (d : Decimal) :
    d.nearest = min infinity (roundUnits (d.num * unitsPerOne) d.den) := by
  rw [nearest]
  by_cases hzero : d.digits = 0
  · have hnum : 2 * (d.num * unitsPerOne) < d.den := by simp [num, hzero, d.den_pos]
    simp [hzero, roundUnits_eq_zero hnum]
  by_cases htiny : d.exponent < tinyExponent d.digits
  · simp [htiny, roundUnits_eq_zero (two_mul_num_lt_den htiny)]
  by_cases hhuge : hugeExponent < d.exponent
  · have := infinity_le_roundUnits (Nat.pos_of_ne_zero hzero) hhuge
    simp [hzero, htiny, hhuge, this]
  · simp [hzero, htiny, hhuge]

/-- No decimal number has a nearest pattern above that of infinity. -/
theorem nearest_le_infinity (d : Decimal) : d.nearest ≤ infinity := by
  rw [nearest_eq]
  exact Nat.min_le_left _ _

/-- A greater number has no lesser nearest double. -/
theorem nearest_mono {a b : Decimal} (h : a.value ≤ b.value) : a.nearest ≤ b.nearest := by
  rw [nearest_eq, nearest_eq]
  have hround :
      roundUnits (a.num * unitsPerOne) a.den ≤ roundUnits (b.num * unitsPerOne) b.den := by
    apply roundUnits_mono a.den_pos b.den_pos
    linarith only [Nat.mul_le_mul_right unitsPerOne (value_le_iff.mp h)]
  omega

/-- The nearest double depends on the value alone. -/
theorem nearest_congr {a b : Decimal} (h : a.value = b.value) : a.nearest = b.nearest :=
  Nat.le_antisymm (nearest_mono h.le) (nearest_mono h.ge)

/-- The number with the lesser nearest double is the lesser one. -/
theorem value_lt_of_nearest_lt {a b : Decimal} (h : a.nearest < b.nearest) : a.value < b.value := by
  by_contra hle
  have := nearest_mono (not_lt.mp hle)
  omega

end Decimal

end LineCalc
