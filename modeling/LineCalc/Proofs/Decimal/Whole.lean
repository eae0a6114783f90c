import LineCalc.Proofs.Decimal.Fewest

/-!
# LineCalc.Proofs.Decimal.Whole

The whole numbers among the doubles, in shortest form.  Below `10^16` the
shortest number of a whole double is the double itself
(`IsShortest.value_eq`): it has no fraction, since a fraction would cost
digits, and if it ends in zeros it is even, so 53 bits are enough for half of
it.  Hence its text is that of the whole number with a point and a zero:
`IsShortest.writeDecimal_eq`.
-/

namespace LineCalc.Decimal

open Binary64

variable {n k c s : Nat} {d other : Decimal}

/-! ## exact numbers -/

/-- A number of 53 bits times a power of two is a number of units of some pattern. -/
theorem exists_units (s : Nat) (hc : c < 2 ^ 53) : ∃ n, units n = c * 2 ^ s := by
  induction s generalizing c with
  | zero => exact ⟨c, by rw [units_of_lt hc, Nat.pow_zero, Nat.mul_one]⟩
  | succ s ih =>
      obtain hlt | hle := Nat.lt_or_ge c (2 ^ 52)
      · obtain ⟨n, hn⟩ := ih (c := 2 * c) (by omega)
        exact ⟨n, by rw [hn, Nat.pow_succ]; ring⟩
      · exact ⟨_, units_add hle hc⟩

/-- A number of 53 bits times a power of two that is not too great is the double it is read as. -/
theorem magnitude_nearest (hc : c < 2 ^ 53) (hs : s ≤ 971) (h : d.value = c * 2 ^ s) :
    magnitude d.nearest = d.value := by
  obtain ⟨n, hn⟩ := exists_units (s + unitPlace) hc
  have hvalue : magnitude n = d.value := by
    rw [magnitude, hn, cast_unitsPerOne, h, pow_add]
    push_cast
    field_simp
  have hle : n ≤ infinity := by
    by_contra hgt
    have hlt := units_lt_units (not_le.mp hgt)
    have hend : units infinity = 2 ^ 53 * 2 ^ (971 + unitPlace) := by decide +kernel
    have hpow : 2 ^ (s + unitPlace) ≤ 2 ^ (971 + unitPlace) :=
      Nat.pow_le_pow_right Nat.two_pos (by omega)
    rw [hend, hn] at hlt
    exact absurd (Nat.mul_le_mul hc.le hpow) (Nat.not_le_of_lt hlt)
  rw [nearest_of_value_eq hle hvalue.symm, hvalue]

/-- A whole number that a double stands for is read as this double. -/
theorem nearest_natCast (hn : n < infinity) (h : magnitude n = k) : nearest ⟨k, 0⟩ = n :=
  nearest_of_value_eq hn.le (by simp [value, h])

theorem value_two_pow : value ⟨2 ^ 53, 0⟩ = 2 ^ 53 := by norm_num [value]

/-- From `2^53` on every double is a whole number. -/
theorem exists_magnitude_eq (h : 2 ^ 53 ≤ magnitude n) : ∃ k : ℕ, magnitude n = k := by
  have hscale : unitPlace ≤ scale n := by
    have hle : nearest ⟨2 ^ 53, 0⟩ ≤ n := nearest_le (value_two_pow.trans_le h)
    have hfirst : nearest ⟨2 ^ 53, 0⟩ = 1076 * 2 ^ 52 := by decide +kernel
    rw [hfirst] at hle
    simp only [unitPlace, scale, Nat.pow_eq]
    omega
  refine ⟨significand n * 2 ^ (scale n - unitPlace), ?_⟩
  rw [magnitude, cast_unitsPerOne, units, Nat.pow_eq, div_eq_iff (by positivity)]
  push_cast
  rw [mul_assoc, ← pow_add, Nat.sub_add_cancel hscale]

/-- A whole number is read as a whole double. -/
theorem exists_magnitude_nearest (h : d.value = k) : ∃ k : ℕ, magnitude d.nearest = k := by
  obtain hle | hlt := le_or_gt (2 ^ 53) (magnitude d.nearest)
  · exact exists_magnitude_eq hle
  · have hbound : magnitude (nearest ⟨2 ^ 53, 0⟩) = 2 ^ 53 := by
      rw [magnitude_nearest (c := 1) (s := 53) (by decide) (by decide) (by norm_num [value]),
        value_two_pow]
    have hbelow : d.nearest < nearest ⟨2 ^ 53, 0⟩ := by
      by_contra hge
      have := magnitude_mono (not_lt.mp hge)
      rw [hbound] at this
      exact absurd this (not_le.mpr hlt)
    have hvalue := value_lt_of_nearest_lt hbelow
    rw [value_two_pow, h] at hvalue
    refine ⟨k, ?_⟩
    rw [magnitude_nearest (c := k) (s := 0) (by exact_mod_cast hvalue) (by decide)
      (by simpa using h), h]

theorem digitCount_one {e : Int} : digitCount ⟨1, e⟩ = 1 := by
  show (Nat.toDigits 10 1).length = 1
  rw [Nat.toDigits_of_lt_base (by decide)]
  rfl

/-- A number whose double is below `10 ^ 16` is below it. -/
theorem value_lt_of_magnitude_lt (h : magnitude d.nearest < 10 ^ (16 : ℤ)) :
    d.value < 10 ^ (16 : ℤ) := by
  have hbound : ¬ value ⟨1, 16⟩ ≤ magnitude d.nearest := by
    rw [value_one]
    exact not_le.mpr h
  rw [isBound_upper.le_magnitude_iff, not_le] at hbound
  have := value_lt_of_nearest_lt hbound
  rwa [value_one] at this

/-- The leading exponent says which powers of ten a number is below. -/
theorem value_lt_pow_iff (h : 0 < d.digits) (k : Int) : d.value < 10 ^ k ↔ d.leading ≤ k := by
  rw [← not_le, pow_le_value_iff h, not_lt]

/-- The display's bound is `10 ^ 16`. -/
theorem lt_displayBound_iff : k < displayBound ↔ (k : ℚ) < 10 ^ (16 : ℤ) := by
  have hbound : (displayBound : ℚ) = 10 ^ (16 : ℤ) := by norm_num [displayBound]
  rw [← hbound]
  exact Nat.cast_lt.symm

namespace IsShortest

/-- Where a number with no more digits is the double, so is the shortest. -/
theorem value_eq_magnitude (hd : IsShortest n d) (h : other.nearest = n)
    (hvalue : other.value = magnitude n) (hcount : other.digitCount ≤ d.digitCount) :
    d.value = magnitude n := by
  have hclosest := hd.closest other h hcount
  rw [hvalue, sub_self, abs_zero] at hclosest
  exact sub_eq_zero.mp (abs_nonpos_iff.mp hclosest)

/-- The shortest number of a whole double has no fraction. -/
theorem exponent_nonneg (hd : IsShortest n d) (hn : n < infinity) (hk : magnitude n = k)
    (h0 : 0 < k) : 0 ≤ d.exponent ∧ (Decimal.mk k 0).digitCount ≤ d.digitCount + d.exponent := by
  have hwhole := nearest_natCast hn hk
  have hfewest := hd.fewest _ hwhole
  have hleading : (Decimal.mk k 0).leading ≤ d.leading := by
    by_contra hlt
    obtain ⟨hlow, hhigh⟩ := pow_between (d := ⟨k, 0⟩) h0 (not_le.mp hlt)
    have hvalue : value ⟨k, 0⟩ = magnitude n := by simp [value, hk]
    rw [hvalue] at hhigh
    -- the power of ten between the two is closer, and has one digit
    rw [← value_one] at hlow hhigh
    have hpow := nearest_of_between hd.nearest_eq hwhole hlow.le (hvalue ▸ hhigh)
    have hclosest := hd.closest _ hpow (digitCount_one.trans_le d.digitCount_pos)
    rw [abs_of_neg (by linarith), abs_of_nonpos (by linarith)] at hclosest
    linarith
  simp only [leading_eq] at hleading
  omega

/-- Below `10^16` the shortest number of a whole double is the double itself. -/
theorem value_eq (hd : IsShortest n d) (hn : n < infinity) (hk : magnitude n = k)
    (hlt : k < displayBound) : d.value = k := by
  by_cases hcount : (Decimal.mk k 0).digitCount ≤ d.digitCount
  · rw [← hk]
    exact hd.value_eq_magnitude (nearest_natCast hn hk) (by simp [value, hk]) hcount
  · -- the number ends in a zero, so 53 bits are enough for half of it
    have h0 : 0 < k := by
      by_contra hzero
      obtain rfl : k = 0 := by omega
      exact hcount d.digitCount_pos
    have hexponent := (hd.exponent_nonneg hn hk h0).2
    obtain ⟨j, hj⟩ : ∃ j : ℕ, d.exponent = j + 1 := ⟨(d.exponent - 1).toNat, by omega⟩
    have hvalue : d.value = (d.digits * 5 * 10 ^ j : ℕ) * 2 ^ 1 := by
      rw [value, hj, zpow_add_one₀ (by norm_num), zpow_natCast]
      push_cast
      ring
    have hbelow : d.value < 10 ^ (16 : ℤ) := by
      apply value_lt_of_magnitude_lt
      rwa [hd.nearest_eq, hk, ← lt_displayBound_iff]
    have hbits : d.digits * 5 * 10 ^ j < 2 ^ 53 := by
      have : ((d.digits * 5 * 10 ^ j * 2 ^ 1 : ℕ) : ℚ) < 10 ^ (16 : ℤ) := by
        rw [hvalue] at hbelow
        exact_mod_cast hbelow
      rw [← lt_displayBound_iff] at this
      simp only [displayBound, Nat.pow_eq] at this
      omega
    rw [← magnitude_nearest hbits (by decide) hvalue, hd.nearest_eq, hk]

end IsShortest

/-! ## texts that end with a point and a zero -/

/-- A power of ten times a number is written with zeros behind its digits. -/
theorem toDigits_mul_pow {m : Nat} (h : 0 < m) (j : Nat) :
    Nat.toDigits 10 (m * 10 ^ j) = Nat.toDigits 10 m ++ List.replicate j '0' := by
  induction j with
  | zero => simp
  | succ j ih =>
      have hpos : 0 < m * 10 ^ j := Nat.mul_pos h (Nat.pow_pos (by decide))
      have hsplit : m * 10 ^ (j + 1) = 10 * (m * 10 ^ j) + 0 := by ring
      rw [hsplit, ← Nat.toDigits_append_toDigits (by decide) hpos (by decide), ih,
        List.replicate_succ', List.append_assoc, Nat.toDigits_zero]

/-- A whole number of at most 16 digits is written with a zero for its fraction. -/
theorem writeDecimal_whole {j : Nat} (hm : 0 < d.digits) (he : d.exponent = j)
    (hlt : d.value < 10 ^ (16 : ℤ)) :
    Layout.message.writeDecimal d = Nat.toDigits 10 (d.digits * 10 ^ j) ++ ['.', '0'] := by
  have hleading : d.leading ≤ 16 := (value_lt_pow_iff hm 16).mp hlt
  have := d.digitCount_pos
  rw [leading_eq] at hleading
  rw [digitCount] at *
  have hlow : Layout.message.positionalFrom <
      ((Nat.toDigits 10 d.digits).length + d.exponent : ℤ) := by
    simp only [Layout.message]
    omega
  have hzeros : ((Nat.toDigits 10 d.digits).length + d.exponent).toNat -
      (Nat.toDigits 10 d.digits).length = j := by omega
  simp only [Layout.writeDecimal, if_neg hm.ne']
  rw [if_pos (by simpa using ⟨hlow, hleading⟩), Layout.positional, if_neg (by omega),
    if_neg (by omega), hzeros, toDigits_mul_pow hm]

namespace IsShortest

/-- A shortest number of a whole double below the display's bound is written as its digits and
`.0`. -/
theorem writeDecimal_eq (hd : IsShortest n d) (hn : n < infinity) (hk : magnitude n = k)
    (hlt : k < displayBound) :
    Layout.message.writeDecimal d = Nat.toDigits 10 k ++ ['.', '0'] := by
  have hvalue := hd.value_eq hn hk hlt
  obtain hzero | hpos := Nat.eq_zero_or_pos d.digits
  · obtain ⟨m, e⟩ := d
    obtain rfl : m = 0 := hzero
    obtain rfl : k = 0 := by simpa [value] using hvalue.symm
    simp [Layout.writeDecimal, Layout.message, Layout.positional]
  · have h0 : 0 < k := by
      have : 0 < d.value := mul_pos (by exact_mod_cast hpos) (by positivity)
      rw [hvalue] at this
      exact_mod_cast this
    obtain ⟨j, hj⟩ := Int.eq_ofNat_of_zero_le (hd.exponent_nonneg hn hk h0).1
    have hnat : d.digits * 10 ^ j = k := by
      rw [value, hj, zpow_natCast] at hvalue
      exact_mod_cast hvalue
    rw [writeDecimal_whole hpos hj (hvalue ▸ lt_displayBound_iff.mp hlt), hnat]

end IsShortest

end LineCalc.Decimal
