import LineCalc.Proofs.Decimal.Search

/-!
# LineCalc.Proofs.Decimal.Fewest

The shortest number of a double by what it is, not by how it is found: it is
read as the double, no number with fewer digits is, and none with as few is
closer (`IsShortest`).  The search goes from coarse grids to fine ones, which
comes to the same (`isShortest_shortest`).  A number with a finer last place
and no more digits is below a power of ten that is not above the shortest
number; so that power is read as the double as well, and a power of ten has
one digit.
-/

namespace LineCalc.Decimal

open Binary64

variable {n : Nat} {e : Int} {a b c d other : Decimal}

/-- The number of digits a decimal number is written with. -/
def digitCount (d : Decimal) : Nat := (Nat.toDigits 10 d.digits).length

/-- A number that is read as the double of a pattern with as few digits as there can be, and
closest to it among those. -/
structure IsShortest (n : Nat) (d : Decimal) : Prop where
  nearest_eq : d.nearest = n
  fewest : ∀ other : Decimal, other.nearest = n → d.digitCount ≤ other.digitCount
  closest : ∀ other : Decimal, other.nearest = n → other.digitCount ≤ d.digitCount →
    |d.value - magnitude n| ≤ |other.value - magnitude n|

theorem digitCount_pos (d : Decimal) : 0 < d.digitCount := Nat.length_toDigits_pos

theorem leading_eq (d : Decimal) : d.leading = d.digitCount + d.exponent := rfl

theorem digits_lt (d : Decimal) : d.digits < 10 ^ d.digitCount :=
  (Nat.length_toDigits_le_iff (by decide) d.digitCount_pos).mp le_rfl

theorem value_one (k : Int) : value ⟨1, k⟩ = 10 ^ k := by simp [value]

/-- A number that is read as a double above zero is not zero. -/
theorem digits_pos_of_nearest (h0 : 0 < n) (h : d.nearest = n) : 0 < d.digits := by
  by_contra hzero
  rw [nearest] at h
  simp_all

/-- What lies between two numbers that are read as one double is read as it too. -/
theorem nearest_of_between (ha : a.nearest = n) (hb : b.nearest = n) (hac : a.value ≤ c.value)
    (hcb : c.value ≤ b.value) : c.nearest = n :=
  Nat.le_antisymm (hb ▸ nearest_mono hcb) (ha ▸ nearest_mono hac)

/-- Between two numbers with different leading exponents there is a power of ten. -/
theorem pow_between (hd : 0 < d.digits) (h : other.leading < d.leading) :
    other.value < 10 ^ (d.leading - 1) ∧ 10 ^ (d.leading - 1) ≤ d.value :=
  ⟨other.value_lt_pow_leading.trans_le (zpow_le_zpow_right₀ (by norm_num) (by omega)),
    pow_leading_le_value hd⟩

/-! ## a power of ten that is read as a double -/

/-- The next double is greater by a twentieth at most, if there are digits enough. -/
theorem units_succ_near (h : 19 ≤ n) : 19 * units (n + 1) ≤ 20 * units n := by
  have hs : 19 ≤ significand n := by
    simp only [significand, Nat.pow_eq]
    split <;> omega
  have hle : 19 * 2 ^ scale n ≤ units n := Nat.mul_le_mul_right _ hs
  rw [units_succ]
  omega

/-- A power of ten exceeds the double that it is read as by a twentieth of itself at most. -/
theorem pow_near_magnitude (h0 : 0 < n) (hn : n < infinity) (h : nearest ⟨1, e⟩ = n) :
    19 * 10 ^ e ≤ 20 * magnitude n := by
  have hmono : ∀ {i j : Int}, i ≤ j → nearest ⟨1, i⟩ ≤ nearest ⟨1, j⟩ := by
    intro i j hij
    apply nearest_mono
    rw [value_one, value_one]
    exact zpow_le_zpow_right₀ (by norm_num) hij
  obtain hlt | rfl | hgt := lt_trichotomy e (-323)
  · -- the next lesser power is read as zero
    have hzero : nearest ⟨1, -324⟩ = 0 := by decide +kernel
    have := @hmono e (-324) (by omega)
    omega
  · -- this power is read as two units
    obtain rfl : n = 2 := h.symm.trans (by decide +kernel)
    have hle : value ⟨19, -323⟩ ≤ magnitude 40 := value_le_magnitude_iff.mpr (by decide +kernel)
    have hforty : magnitude 40 = 20 * magnitude 2 := by
      have h₁ : units 40 = 40 := units_of_lt (by decide)
      have h₂ : units 2 = 2 := units_of_lt (by decide)
      rw [magnitude, magnitude, h₁, h₂]
      push_cast
      ring
    rwa [hforty] at hle
  · -- this power and the greater ones are read as doubles with digits enough
    have htwenty : nearest ⟨1, -322⟩ = 20 := by decide +kernel
    have := @hmono (-322) e (by omega)
    have hone : (0 : ℚ) < unitsPerOne := by exact_mod_cast unitsPerOne_pos
    have hbelow : (10 : ℚ) ^ e ≤ magnitude (n + 1) := by
      by_contra hgt
      rw [← value_one, not_le] at hgt
      have := le_nearest hn hgt.le
      omega
    have hnext : 19 * magnitude (n + 1) ≤ 20 * magnitude n := by
      rw [magnitude, magnitude, ← mul_div_assoc, ← mul_div_assoc]
      exact div_le_div_of_nonneg_right (by exact_mod_cast units_succ_near (by omega)) hone.le
    linarith

/-! ## the shortest number -/

/-- A number of the same double that has fewer digits, or is on a finer grid with no more digits, is
of a lower power of ten than the shortest one. -/
theorem leading_lt (h0 : 0 < n) (hn : n < infinity) (h : other.nearest = n)
    (hlt : other.digitCount < (shortest n).digitCount ∨ other.exponent < (shortest n).exponent)
    (hcount : other.digitCount ≤ (shortest n).digitCount) :
    other.leading < (shortest n).leading := by
  have := exponent_le_shortest h0 hn h
  rw [leading_eq, leading_eq]
  omega

/-- A number with a lesser leading exponent than the shortest one has a power of ten above it that
is read as the double. -/
theorem nearest_pow_leading (h0 : 0 < n) (hn : n < infinity) (h : other.nearest = n)
    (hlt : other.leading < (shortest n).leading) :
    nearest ⟨1, (shortest n).leading - 1⟩ = n ∧ (shortest n).digitCount = 1 := by
  have hs := nearest_shortest hn
  obtain ⟨hlow, hhigh⟩ := pow_between (digits_pos_of_nearest h0 hs) hlt
  rw [← value_one] at hlow hhigh
  have hpow := nearest_of_between h hs hlow.le hhigh
  -- its last place is no coarser, so the shortest number has no digits after the first
  have hexponent : (shortest n).leading - 1 ≤ (shortest n).exponent :=
    exponent_le_shortest h0 hn hpow
  have := (shortest n).digitCount_pos
  rw [leading_eq] at hexponent
  exact ⟨hpow, by omega⟩

/-- Ten times a number of one digit on a finer grid is nine steps of the grid at most. -/
theorem ten_mul_value_le (hcount : other.digitCount = 1) (he : other.exponent < e) :
    10 * other.value ≤ 9 * 10 ^ e := by
  have hdigits : other.digits ≤ 9 := by
    have := other.digits_lt
    rw [hcount] at this
    omega
  calc 10 * other.value = other.digits * 10 ^ (other.exponent + 1) := by
        rw [value, zpow_add_one₀ (by norm_num)]
        ring
    _ ≤ 9 * 10 ^ e :=
        mul_le_mul (by exact_mod_cast hdigits) (zpow_le_zpow_right₀ (by norm_num) he)
          (by positivity) (by norm_num)

/-- Where a power of ten with the last place of the shortest number is read as the double, no
number of one digit with a finer last place is closer than the shortest. -/
theorem abs_shortest_sub_le_finer (h0 : 0 < n) (hn : n < infinity)
    (hpow : nearest ⟨1, (shortest n).exponent⟩ = n) (hcount : other.digitCount = 1)
    (he : other.exponent < (shortest n).exponent) :
    |(shortest n).value - magnitude n| ≤ |other.value - magnitude n| := by
  have hother := ten_mul_value_le hcount he
  have hpos : (0 : ℚ) < 10 ^ (shortest n).exponent := by positivity
  refine (abs_shortest_sub_le hn hpow).trans ?_
  rw [value_one]
  obtain hle | hlt := le_or_gt ((10 : ℚ) ^ (shortest n).exponent) (magnitude n)
  · exact Set.abs_sub_left_of_mem_uIcc (Set.mem_uIcc_of_ge (by linarith) hle)
  · -- the power is above the double, and a twentieth is less than what is missing to it below
    have hnear := pow_near_magnitude h0 hn hpow
    rw [abs_of_pos (by linarith), abs_of_neg (by linarith)]
    linarith

/-- The shortest number of the pattern of zero is the one that the search finds. -/
theorem isShortest_zero : IsShortest 0 (shortest 0) := by
  have hzero : shortest 0 = ⟨0, -321⟩ := by decide +kernel
  have hvalue : (shortest 0).value = magnitude 0 := by
    rw [hzero, value, magnitude, units_of_lt (by decide), Nat.cast_zero, zero_mul, zero_div]
  refine ⟨nearest_shortest (by decide), fun other _ => ?_, fun other _ _ => ?_⟩
  · rw [hzero]
    exact other.digitCount_pos
  · rw [hvalue, sub_self, abs_zero]
    exact abs_nonneg _

/-- The first hit of the search has as few digits as there can be, and is closest among the numbers
that have as few. -/
theorem isShortest_shortest (hn : n < infinity) : IsShortest n (shortest n) := by
  obtain rfl | h0 := Nat.eq_zero_or_pos n
  · exact isShortest_zero
  refine ⟨nearest_shortest hn, fun other h => ?_, fun other h hcount => ?_⟩
  · by_contra hlt
    have hone := (nearest_pow_leading h0 hn h (leading_lt h0 hn h (by omega) (by omega))).2
    have := other.digitCount_pos
    omega
  · obtain heq | hlt := eq_or_lt_of_le (exponent_le_shortest h0 hn h)
    · obtain ⟨m, e⟩ := other
      obtain rfl : e = _ := heq
      exact abs_shortest_sub_le hn h
    · obtain ⟨hpow, hone⟩ := nearest_pow_leading h0 hn h (leading_lt h0 hn h (.inr hlt) hcount)
      have hlast : (shortest n).leading - 1 = (shortest n).exponent := by
        rw [leading_eq, hone]
        omega
      rw [hlast] at hpow
      have := other.digitCount_pos
      exact abs_shortest_sub_le_finer h0 hn hpow (by omega) hlt

end LineCalc.Decimal
