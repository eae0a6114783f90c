import LineCalc.Proofs.Decimal.Shortest
import Mathlib.Algebra.Order.Group.Pointwise.Interval

/-!
# LineCalc.Proofs.Decimal.Search

What the search for the shortest number finds.  On one grid the two neighbours
of the value of a double stand for all numbers: if any number of the grid is
read as the double, one of the two is, and the hit is as close as any
(`nearest_ne_of_hit?_eq_none`, `closest_of_hit?`).  On the grids that are so
coarse that the search does not try them, no number is read as the double:
their step is more than the next magnitude (`magnitude_succ_le_pow`).  So the
search ends on the coarsest grid that has a hit: `exponent_le_shortest`.
-/

namespace LineCalc

/-- A quotient is rounded by a half at most. -/
theorem abs_roundHalfEven_sub_le_half {a b : Nat} (hb : 0 < b) :
    |(roundHalfEven a b : ℚ) - a / b| ≤ 1 / 2 := by
  have hb' : (0 : ℚ) < b := by exact_mod_cast hb
  obtain ⟨r, hr⟩ : ∃ r, roundHalfEven a b = r := ⟨_, rfl⟩
  have hupper : 2 * a ≤ (2 * r + 1) * b :=
    ((roundHalfEven_le_iff hb r).mp hr.le).elim Nat.le_of_lt fun h => h.1.le
  have hlower : 2 * (r * b) ≤ 2 * a + b := by
    cases r with
    | zero => omega
    | succ q =>
        have hle : (2 * q + 1) * b ≤ 2 * a := by
          by_contra hlt
          have := (roundHalfEven_le_iff hb q).mpr (.inl (not_le.mp hlt))
          omega
        linarith only [hle]
  have hupper : 2 * (a : ℚ) ≤ (2 * r + 1) * b := by exact_mod_cast hupper
  have hlower : 2 * ((r : ℚ) * b) ≤ 2 * a + b := by exact_mod_cast hlower
  have hsub : (r : ℚ) - a / b = (r * b - a) / b := by field_simp
  rw [hr, hsub, abs_div, abs_of_pos hb', div_le_iff₀ hb', abs_le]
  exact ⟨by linarith, by linarith⟩

/-- No whole number is closer to a quotient than the one that it is rounded to. -/
theorem abs_roundHalfEven_sub_le {a b : Nat} (hb : 0 < b) (m : Nat) :
    |(roundHalfEven a b : ℚ) - a / b| ≤ |(m : ℚ) - a / b| := by
  have hhalf := abs_roundHalfEven_sub_le_half (a := a) hb
  by_cases hm : m = roundHalfEven a b
  · rw [hm]
  · have hne : (m : ℤ) - roundHalfEven a b ≠ 0 := by omega
    have hfar : (1 : ℚ) ≤ |(m : ℚ) - roundHalfEven a b| := by
      simpa using (Int.cast_le (R := ℚ)).mpr (Int.one_le_abs hne)
    have htriangle := abs_sub_le (m : ℚ) (a / b) (roundHalfEven a b)
    rw [abs_sub_comm ((a : ℚ) / b)] at htriangle
    linarith

namespace Decimal

open Binary64

variable {m n : Nat} {e : Int} {d : Decimal}

/-- A number no less than a double is read as no lesser double. -/
theorem le_nearest (hn : n ≤ infinity) (h : magnitude n ≤ d.value) : n ≤ d.nearest := by
  have hround := roundUnits_mono d.den_pos d.den_pos
    (Nat.mul_le_mul_right d.den (magnitude_le_value_iff.mp h))
  rw [roundUnits_units n d.den_pos] at hround
  rw [nearest_eq]
  omega

/-! ## one grid -/

theorem stepsDen_pos (e : Int) : 0 < stepsDen e :=
  Nat.mul_pos unitsPerOne_pos (Nat.pow_pos (by decide))

/-- The value of a double in steps of a grid. -/
theorem magnitude_eq_steps (n : Nat) (e : Int) :
    magnitude n = (stepsNum n e : ℚ) / stepsDen e * 10 ^ e := by
  have hpos : (unitsPerOne : ℚ) ≠ 0 := by exact_mod_cast unitsPerOne_pos.ne'
  simp only [magnitude, stepsNum, stepsDen, Nat.pow_eq]
  generalize unitsPerOne = one at hpos ⊢
  by_cases h : 0 ≤ e
  · obtain ⟨k, rfl⟩ := Int.eq_ofNat_of_zero_le h
    simp only [Int.toNat_neg_natCast, Int.toNat_natCast, pow_zero, mul_one, Nat.cast_mul,
      Nat.cast_pow, Nat.cast_ofNat, zpow_natCast]
    field_simp
  · obtain ⟨k, rfl⟩ : ∃ k : ℕ, e = -k := ⟨(-e).toNat, by omega⟩
    simp only [neg_neg, Int.toNat_natCast, Int.toNat_neg_natCast, pow_zero, mul_one, Nat.cast_mul,
      Nat.cast_pow, Nat.cast_ofNat, zpow_neg, zpow_natCast]
    field_simp

/-- On one grid the greater count of steps is the greater number. -/
theorem value_mono {k : Nat} (h : m ≤ k) : value ⟨m, e⟩ ≤ value ⟨k, e⟩ :=
  mul_le_mul_of_nonneg_right (by exact_mod_cast h) (by positivity)

/-- The step below a double is not above it. -/
theorem below_le_magnitude : value ⟨stepsNum n e / stepsDen e, e⟩ ≤ magnitude n := by
  have hden : (0 : ℚ) < stepsDen e := by exact_mod_cast stepsDen_pos e
  rw [magnitude_eq_steps n e, value]
  refine mul_le_mul_of_nonneg_right ?_ (by positivity)
  rw [le_div_iff₀ hden]
  exact_mod_cast Nat.div_mul_le_self _ _

/-- The step above a double is not below it. -/
theorem magnitude_le_above : magnitude n ≤ value ⟨stepsNum n e / stepsDen e + 1, e⟩ := by
  have hden : (0 : ℚ) < stepsDen e := by exact_mod_cast stepsDen_pos e
  rw [magnitude_eq_steps n e, value]
  refine mul_le_mul_of_nonneg_right ?_ (by positivity)
  rw [div_le_iff₀ hden]
  exact_mod_cast (Nat.lt_mul_of_div_lt (Nat.lt_succ_self _) (stepsDen_pos e)).le

/-- If a number of the grid below the value is read as the double, so is the one next to it. -/
theorem nearest_below (hm : nearest ⟨m, e⟩ = n) (hle : m ≤ stepsNum n e / stepsDen e) :
    nearest ⟨stepsNum n e / stepsDen e, e⟩ = n := by
  have hmono := nearest_mono (value_mono (e := e) hle)
  rw [hm] at hmono
  exact Nat.le_antisymm (nearest_le below_le_magnitude) hmono

/-- If a number of the grid above the value is read as the double, so is the one next to it. -/
theorem nearest_above (hn : n ≤ infinity) (hm : nearest ⟨m, e⟩ = n)
    (hlt : stepsNum n e / stepsDen e + 1 ≤ m) :
    nearest ⟨stepsNum n e / stepsDen e + 1, e⟩ = n := by
  have hmono := nearest_mono (value_mono (e := e) hlt)
  rw [hm] at hmono
  exact Nat.le_antisymm hmono (le_nearest hn magnitude_le_above)

/-- On a grid without a hit no number is read as the double. -/
theorem nearest_ne_of_hit?_eq_none (hn : n ≤ infinity) (h : hit? n e = none) (m : Nat) :
    nearest ⟨m, e⟩ ≠ n := by
  intro hm
  simp only [hit?] at h
  split at h <;> try cases h
  next hbelow habove =>
  simp only [readsBack, decide_eq_false_iff_not] at hbelow habove
  obtain hle | hlt := Nat.lt_or_ge (stepsNum n e / stepsDen e) m
  · exact habove (nearest_above hn hm hle)
  · exact hbelow (nearest_below hm hlt)

/-- A hit is on its grid, and no number of the grid that is read as the double is closer. -/
theorem closest_of_hit? (hn : n ≤ infinity) (h : hit? n e = some d) :
    d.exponent = e ∧ ∀ m, nearest ⟨m, e⟩ = n →
      |d.value - magnitude n| ≤ |value ⟨m, e⟩ - magnitude n| := by
  simp only [hit?] at h
  split at h <;> simp only [Option.some.injEq, reduceCtorEq] at h <;> subst h
  · refine ⟨rfl, fun m _ => ?_⟩
    have hpow : (0 : ℚ) ≤ 10 ^ e := by positivity
    have hround := abs_roundHalfEven_sub_le (a := stepsNum n e) (stepsDen_pos e) m
    rw [magnitude_eq_steps n e]
    simp only [value, ← sub_mul, abs_mul, abs_of_nonneg hpow]
    exact mul_le_mul_of_nonneg_right hround hpow
  · next hbelow habove =>
    refine ⟨rfl, fun m hm => ?_⟩
    simp only [readsBack, decide_eq_false_iff_not] at habove
    have hle : m ≤ stepsNum n e / stepsDen e := by
      by_contra hlt
      exact habove (nearest_above hn hm (by omega))
    exact Set.abs_sub_left_of_mem_uIcc (Set.mem_uIcc_of_ge (value_mono hle) below_le_magnitude)
  · next hbelow habove =>
    refine ⟨rfl, fun m hm => ?_⟩
    simp only [readsBack, decide_eq_false_iff_not] at hbelow
    have hle : stepsNum n e / stepsDen e + 1 ≤ m := by
      by_contra hlt
      exact hbelow (nearest_below hm (by omega))
    exact Set.abs_sub_left_of_mem_uIcc (Set.mem_uIcc_of_le magnitude_le_above (value_mono hle))

/-! ## all grids -/

/-- Among the grids up to a coarsest one this is the first with a number that is read as the
double, and on its own grid no such number is closer. -/
structure IsFirst (n : Nat) (coarsest : Int) (d : Decimal) : Prop where
  nearest_ne : ∀ m e, d.exponent < e → e ≤ coarsest → nearest ⟨m, e⟩ ≠ n
  closest : ∀ m, nearest ⟨m, d.exponent⟩ = n →
    |d.value - magnitude n| ≤ |value ⟨m, d.exponent⟩ - magnitude n|

/-- Halving a number so many times needs so many decimal places. -/
theorem value_mul_five_pow (u k : Nat) :
    value ⟨u * 5 ^ k, -k⟩ = u / 2 ^ k := by
  have hten : (10 : ℚ) ^ k = 2 ^ k * 5 ^ k := by rw [← mul_pow]; norm_num
  simp only [value, zpow_neg, zpow_natCast, hten]
  push_cast
  field_simp

/-- There is a power of two of units in one. -/
theorem cast_unitsPerOne : (unitsPerOne : ℚ) = 2 ^ unitPlace := by
  unfold unitsPerOne
  generalize unitPlace = k
  simp

/-- The search returns the first hit from the coarsest grid on. -/
theorem isFirst_firstHit (hn : n ≤ infinity) (g : Nat) :
    IsFirst n (g - unitPlace) (firstHit n g) := by
  induction g with
  | zero =>
      refine ⟨fun m e hlt hle => ?_, fun m _ => ?_⟩
      · simp only [firstHit] at hlt
        omega
      · have hexact : value ⟨units n * Nat.pow 5 unitPlace, -unitPlace⟩ = magnitude n := by
          rw [magnitude, cast_unitsPerOne, Nat.pow_eq, value_mul_five_pow]
        rw [firstHit, hexact, sub_self, abs_zero]
        exact abs_nonneg _
  | succ g ih =>
      simp only [firstHit]
      split
      · next d hd =>
        obtain ⟨hexponent, hclosest⟩ := closest_of_hit? hn hd
        refine ⟨fun m e hlt hle => by omega, fun m hm => ?_⟩
        rw [hexponent] at hm ⊢
        exact hclosest m hm
      · next hnone =>
        refine ⟨fun m e hlt hle => ?_, ih.closest⟩
        obtain rfl | hlt' := eq_or_lt_of_le hle
        · exact nearest_ne_of_hit?_eq_none hn hnone m
        · exact ih.nearest_ne m e hlt (by omega)

/-! ## the coarsest grid -/

/-- The next pattern is one last place further. -/
theorem units_succ (n : Nat) : units (n + 1) = units n + 2 ^ scale n := by
  simp only [units, Nat.pow_eq]
  by_cases hs : scale (n + 1) = scale n
  · have hm : significand (n + 1) = significand n + 1 := by
      have := scale_significand n
      have := scale_significand (n + 1)
      simp only [hs, Nat.pow_eq] at *
      omega
    rw [hs, hm, Nat.succ_mul]
  · -- the significand begins anew at `2 ^ 52`, and the scale is one more
    have hs' : scale (n + 1) = scale n + 1 := by
      simp only [scale, Nat.pow_eq] at *
      omega
    have hm : 2 * significand (n + 1) = significand n + 1 := by
      simp only [scale, significand, Nat.pow_eq] at *
      split <;> split <;> omega
    rw [hs', Nat.pow_succ, ← Nat.succ_mul, Nat.succ_eq_add_one, ← hm]
    ring

/-- The next pattern is at most twice as far from zero. -/
theorem units_succ_le (h : 0 < n) : units (n + 1) ≤ 2 * units n := by
  have hs : 0 < significand n := by
    have := units_pos h
    rw [units] at this
    exact Nat.pos_of_mul_pos_right this
  have hle : 2 ^ scale n ≤ units n := Nat.le_mul_of_pos_left _ hs
  rw [units_succ]
  omega

/-- Powers of two bases, from one inequality between powers of them. -/
theorem pow_le_pow_of_pow_le {a b p q i j : Nat} (h : a ^ p ≤ b ^ q) (hb : 0 < b) (hp : p ≠ 0)
    (hij : q * i ≤ p * j) : a ^ i ≤ b ^ j := by
  rw [← Nat.pow_le_pow_iff_left hp]
  calc (a ^ i) ^ p = (a ^ p) ^ i := by rw [← pow_mul, ← pow_mul, Nat.mul_comm]
    _ ≤ (b ^ q) ^ i := Nat.pow_le_pow_left h i
    _ = b ^ (q * i) := (pow_mul b q i).symm
    _ ≤ b ^ (p * j) := Nat.pow_le_pow_right hb hij
    _ = (b ^ j) ^ p := by rw [← pow_mul, Nat.mul_comm]

/-- The step of the coarsest grid is not below the power of two next above the number. -/
theorem two_pow_bits_le (u : Nat) : (2 : ℚ) ^ ((u.log2 + 1 : ℕ) - unitPlace : ℤ) ≤
    10 ^ (coarsestGrid u - unitPlace : ℤ) := by
  simp only [coarsestGrid]
  generalize u.log2 + 1 = bits
  split
  · next h =>
    have hpow : 2 ^ (bits - unitPlace) ≤ 10 ^ ((bits - unitPlace) * 28 / 93 + 1) :=
      pow_le_pow_of_pow_le (p := 93) (q := 28) (by norm_num) (by decide) (by decide) (by omega)
    have hbits : (bits : ℤ) - unitPlace = (bits - unitPlace : ℕ) := by omega
    have hgrid : ((unitPlace + (bits - unitPlace) * 28 / 93 + 1 : ℕ) : ℤ) - unitPlace =
        ((bits - unitPlace) * 28 / 93 + 1 : ℕ) := by omega
    rw [hbits, hgrid, zpow_natCast, zpow_natCast]
    exact_mod_cast hpow
  · next h =>
    have hpow : 10 ^ ((unitPlace - bits) * 3 / 10) ≤ 2 ^ (unitPlace - bits) :=
      pow_le_pow_of_pow_le (p := 3) (q := 10) (by norm_num) (by decide) (by decide) (by omega)
    have hbits : (bits : ℤ) - unitPlace = -(unitPlace - bits : ℕ) := by omega
    have hgrid : ((unitPlace - (unitPlace - bits) * 3 / 10 : ℕ) : ℤ) - unitPlace =
        -((unitPlace - bits) * 3 / 10 : ℕ) := by omega
    rw [hbits, hgrid, zpow_neg, zpow_neg, zpow_natCast, zpow_natCast]
    exact inv_anti₀ (by positivity) (by exact_mod_cast hpow)

/-- Beyond the coarsest grid that is tried a step is more than the next magnitude. -/
theorem magnitude_succ_le_pow (h0 : 0 < n) (he : coarsestGrid (units n) - unitPlace < e) :
    magnitude (n + 1) ≤ 10 ^ e := by
  have hunits : units (n + 1) ≤ 2 * 2 ^ ((units n).log2 + 1) := by
    have := units_succ_le h0
    have : units n < 2 ^ ((units n).log2 + 1) := Nat.lt_log2_self
    omega
  have hone : (0 : ℚ) < unitsPerOne := by exact_mod_cast unitsPerOne_pos
  calc magnitude (n + 1) ≤ 2 * 2 ^ ((units n).log2 + 1) / unitsPerOne :=
        div_le_div_of_nonneg_right (by exact_mod_cast hunits) hone.le
    _ = 2 * 2 ^ (((units n).log2 + 1 : ℕ) - unitPlace : ℤ) := by
        rw [zpow_sub₀ two_ne_zero, zpow_natCast, zpow_natCast, cast_unitsPerOne, mul_div_assoc]
    _ ≤ 10 * 10 ^ (coarsestGrid (units n) - unitPlace : ℤ) :=
        mul_le_mul (by norm_num) (two_pow_bits_le _) (by positivity) (by norm_num)
    _ = 10 ^ (coarsestGrid (units n) - unitPlace + 1 : ℤ) := by
        rw [zpow_add_one₀ (by norm_num), mul_comm]
    _ ≤ 10 ^ e := zpow_le_zpow_right₀ (by norm_num) he

/-! ## the shortest number -/

/-- On a grid coarser than the coarsest one no number is read as the double. -/
theorem nearest_ne_of_pow_gt (h0 : 0 < n) (hn : n < infinity)
    (he : coarsestGrid (units n) - unitPlace < e) (m : Nat) : nearest ⟨m, e⟩ ≠ n := by
  obtain rfl | hm := Nat.eq_zero_or_pos m
  · simp [nearest, Nat.ne_of_lt h0]
  · have hone : (10 : ℚ) ^ e ≤ value ⟨m, e⟩ :=
      le_mul_of_one_le_left (by positivity) (by exact_mod_cast hm)
    have := le_nearest hn ((magnitude_succ_le_pow h0 he).trans hone)
    omega

/-- No number with a coarser last place than the shortest one is read as the double. -/
theorem exponent_le_shortest (h0 : 0 < n) (hn : n < infinity) (h : d.nearest = n) :
    d.exponent ≤ (shortest n).exponent := by
  by_contra hlt
  obtain hle | hgt := le_or_gt d.exponent (coarsestGrid (units n) - unitPlace)
  · exact (isFirst_firstHit hn.le _).nearest_ne d.digits d.exponent (not_le.mp hlt) hle h
  · exact nearest_ne_of_pow_gt h0 hn hgt d.digits h

/-- On the grid of the shortest number none that is read as the double is closer. -/
theorem abs_shortest_sub_le (hn : n < infinity) (h : nearest ⟨m, (shortest n).exponent⟩ = n) :
    |(shortest n).value - magnitude n| ≤ |value ⟨m, (shortest n).exponent⟩ - magnitude n| :=
  (isFirst_firstHit hn.le _).closest m h

end Decimal

end LineCalc
