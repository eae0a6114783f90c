import LineCalc.Proofs.Decimal.Parts
import LineCalc.Proofs.Decimal.Rounding

/-!
# LineCalc.Proofs.Decimal.Shortest

The shortest number that reads back as a double, against bounds.  It need not
be the value of the double, so it could lie on the other side of a bound.
Of a bound that is itself the shortest number of the double nearest to it,
this is not so (`le_shortest_iff`), and the two bounds between which a
document has no exponents are such numbers: `isPositional_shortest_iff`.
-/

namespace LineCalc

namespace Binary64

/-- The magnitude of a pattern, in ones. -/
def magnitude (n : Nat) : ℚ := units n / unitsPerOne

/-- The greater pattern has the greater magnitude. -/
theorem magnitude_mono {m n : Nat} (h : m ≤ n) : magnitude m ≤ magnitude n := by
  have hunits : units m ≤ units n := by
    obtain rfl | hlt := Nat.eq_or_lt_of_le h
    · exact le_rfl
    · exact (Decimal.units_lt_units hlt).le
  exact div_le_div_of_nonneg_right (by exact_mod_cast hunits) (Nat.cast_nonneg _)

end Binary64

namespace Decimal

open Binary64

variable {b d : Decimal} {n : Nat}

/-- A number below a double, compared in units. -/
theorem value_le_magnitude_iff :
    d.value ≤ magnitude n ↔ d.num * unitsPerOne ≤ units n * d.den := by
  have hd : (0 : ℚ) < d.den := by exact_mod_cast d.den_pos
  have hu : (0 : ℚ) < unitsPerOne := by exact_mod_cast unitsPerOne_pos
  rw [value_eq_div, magnitude, div_le_div_iff₀ hd hu]
  exact_mod_cast Iff.rfl

/-- A number above a double, compared in units. -/
theorem magnitude_le_value_iff :
    magnitude n ≤ d.value ↔ units n * d.den ≤ d.num * unitsPerOne := by
  have hd : (0 : ℚ) < d.den := by exact_mod_cast d.den_pos
  have hu : (0 : ℚ) < unitsPerOne := by exact_mod_cast unitsPerOne_pos
  rw [value_eq_div, magnitude, div_le_div_iff₀ hu hd]
  exact_mod_cast Iff.rfl

/-- A number no greater than a double is read as no greater double. -/
theorem nearest_le (h : d.value ≤ magnitude n) : d.nearest ≤ n := by
  have hround := roundUnits_mono d.den_pos d.den_pos
    (Nat.mul_le_mul_right d.den (value_le_magnitude_iff.mp h))
  rw [roundUnits_units n d.den_pos] at hround
  rw [nearest_eq]
  omega

/-- A number that is the value of a double is read as that double. -/
theorem nearest_of_value_eq (hn : n ≤ infinity) (h : d.value = magnitude n) : d.nearest = n := by
  have hunits : d.num * unitsPerOne = units n * d.den :=
    Nat.le_antisymm (value_le_magnitude_iff.mp h.le) (magnitude_le_value_iff.mp h.ge)
  rw [nearest_eq, hunits, roundUnits_units n d.den_pos]
  omega

/-! ## bounds -/

/-- A number on which the shortest number of a double and its value agree: the double nearest to
it is not below it, and it is the shortest number of that double. -/
structure IsBound (b : Decimal) : Prop where
  le_nearest : b.value ≤ magnitude b.nearest
  shortest_nearest : shortest b.nearest = b

namespace IsBound

/-- A double is not below a bound exactly if its pattern is not below the bound's. -/
theorem le_magnitude_iff (h : b.IsBound) : b.value ≤ magnitude n ↔ b.nearest ≤ n :=
  ⟨nearest_le, fun hn => h.le_nearest.trans (magnitude_mono hn)⟩

/-- The shortest number of a double is on the side of a bound that the double is on. -/
theorem le_shortest_iff (h : b.IsBound) (hn : n < infinity) :
    b.value ≤ (shortest n).value ↔ b.value ≤ magnitude n := by
  rw [h.le_magnitude_iff]
  constructor
  · intro hle
    have := nearest_mono hle
    rwa [nearest_shortest hn] at this
  · intro hle
    obtain heq | hlt := Nat.eq_or_lt_of_le hle
    · rw [← heq, h.shortest_nearest]
    · rw [← nearest_shortest hn] at hlt
      exact (value_lt_of_nearest_lt hlt).le

end IsBound

/-- The least power of ten that is written without an exponent is a bound. -/
theorem isBound_lower : IsBound ⟨1, -4⟩ where
  le_nearest := value_le_magnitude_iff.mpr (by decide +kernel)
  shortest_nearest := by decide +kernel

/-- The power of ten that the positional form ends below is a bound. -/
theorem isBound_upper : IsBound ⟨1, 16⟩ where
  le_nearest := value_le_magnitude_iff.mpr (by decide +kernel)
  shortest_nearest := by decide +kernel

/-- Only zero has zero as its shortest number. -/
theorem digits_shortest_pos (hn : n < infinity) (h0 : n ≠ 0) : 0 < (shortest n).digits := by
  by_contra hzero
  have hnearest := nearest_shortest hn
  rw [nearest] at hnearest
  simp_all

/-- A document has a double other than zero without an exponent if its magnitude is `10^-4` or
more and less than `10^16`. -/
theorem isPositional_shortest_iff (hn : n < infinity) (h0 : n ≠ 0) :
    Layout.document.IsPositional (shortest n) ↔
      (10 : ℚ) ^ (-4 : ℤ) ≤ magnitude n ∧ magnitude n < 10 ^ (16 : ℤ) := by
  have hd := digits_shortest_pos hn h0
  have hlower := isBound_lower.le_shortest_iff hn
  have hupper := isBound_upper.le_shortest_iff hn
  simp only [value, Nat.cast_one, one_mul] at hlower hupper
  rw [← hlower, ← not_le, ← hupper, ← value, pow_le_value_iff hd, pow_le_value_iff hd, not_lt]
  rfl

end Decimal

end LineCalc
