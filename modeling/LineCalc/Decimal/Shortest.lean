import LineCalc.Decimal.Nearest

/-!
# LineCalc.Decimal.Shortest

The shortest decimal number that reads back as a given double.  The decimal
numbers with `10 ^ e` as their last place form a grid, and on each grid only
the two neighbours of the exact value can be nearest to the double if any
point of it is.  The grids are tried from a coarse one on: the first with a
hit has the fewest digits.  Of two hits the nearer is taken, halfway the even
one.  The finest grid, `10 ^ -1074`, holds every finite double exactly, so
the search ends, and `nearest_shortest` says that its result reads back.
-/

namespace LineCalc.Decimal

open Binary64

/-- The numerator of the double of pattern `n` in steps of `10 ^ e`. -/
def stepsNum (n : Nat) (e : Int) : Nat := units n * Nat.pow 10 (-e).toNat

/-- The denominator of a double in steps of `10 ^ e`. -/
def stepsDen (e : Int) : Nat := unitsPerOne * Nat.pow 10 e.toNat

/-- Whether a decimal number is read as the double of pattern `n`. -/
def readsBack (n : Nat) (d : Decimal) : Bool := d.nearest = n

/-- The number of the grid with last place `10 ^ e` that reads back as pattern `n`. -/
def hit? (n : Nat) (e : Int) : Option Decimal :=
  let num := stepsNum n e
  let den := stepsDen e
  let below : Decimal := ⟨num / den, e⟩
  let above : Decimal := ⟨num / den + 1, e⟩
  match readsBack n below, readsBack n above with
  | true, true => some ⟨roundHalfEven num den, e⟩
  | true, false => some below
  | false, true => some above
  | false, false => none

/-- The first hit on the grids `10 ^ (g - 1074)`, `10 ^ (g - 1075)` and so on to the finest. -/
def firstHit (n : Nat) : Nat → Decimal
  | 0 => ⟨units n * Nat.pow 5 unitPlace, -unitPlace⟩
  | g + 1 =>
    match hit? n ((g + 1 : Nat) - unitPlace) with
    | some d => d
    | none => firstHit n g

/-- A grid so coarse that the value of `u` units is less than its step: `2^93 < 10^28` bounds
the powers of ten from above, and `10^3 < 2^10` those below one. -/
def coarsestGrid (u : Nat) : Nat :=
  let bits := u.log2 + 1
  if unitPlace ≤ bits then unitPlace + (bits - unitPlace) * 28 / 93 + 1
  else unitPlace - (unitPlace - bits) * 3 / 10

/-- The shortest decimal that is nearest to a double, and closest to it among those. -/
def shortest (n : Nat) : Decimal := firstHit n (coarsestGrid (units n))

/-! ## the shortest number reads back -/

/-- A hit is a decimal of the pattern asked for. -/
theorem nearest_of_hit? {n : Nat} {e : Int} {d : Decimal} (h : hit? n e = some d) :
    d.nearest = n := by
  simp only [hit?] at h
  split at h <;> try simp only [Option.some.injEq, reduceCtorEq] at h
  · next hb ha =>
    simp only [readsBack, decide_eq_true_eq] at hb ha
    subst h
    obtain hr | hr := roundHalfEven_eq (stepsNum n e) (stepsDen e)
    · rw [hr]; exact hb
    · rw [hr]; exact ha
  · next hb ha => subst h; simpa [readsBack] using hb
  · next hb ha => subst h; simpa [readsBack] using ha

/-- On the finest grid the value is exact. -/
theorem nearest_finest {n : Nat} (h : n < infinity) :
    nearest ⟨units n * Nat.pow 5 unitPlace, -unitPlace⟩ = n := by
  rw [Nat.pow_eq]
  by_cases h0 : n = 0
  · subst h0; decide +kernel
  · have hu := units_pos (Nat.pos_of_ne_zero h0)
    have h5 : 0 < 5 ^ unitPlace := Nat.pow_pos (by decide)
    have hd : units n * 5 ^ unitPlace ≠ 0 := Nat.mul_ne_zero (Nat.ne_of_gt hu) (Nat.ne_of_gt h5)
    have hl : 1000 ≤ (units n * 5 ^ unitPlace).log2 := by
      rw [Nat.le_log2 hd]
      calc 2 ^ 1000 ≤ 5 ^ unitPlace := by decide +kernel
        _ ≤ units n * 5 ^ unitPlace := Nat.le_mul_of_pos_left _ hu
    have ht : ¬ ((-(unitPlace : Int)) < tinyExponent (units n * 5 ^ unitPlace)) := by
      simp only [tinyExponent, unitPlace] at hl ⊢; omega
    have hh : ¬ (hugeExponent < -(unitPlace : Int)) := by decide
    have hnum : (⟨units n * 5 ^ unitPlace, -unitPlace⟩ : Decimal).num * unitsPerOne
        = units n * (⟨units n * 5 ^ unitPlace, -unitPlace⟩ : Decimal).den := by
      have he : (-(unitPlace : Int)).toNat = 0 := by omega
      have he' : (- -(unitPlace : Int)).toNat = unitPlace := by omega
      simp only [num, den, he, he', Nat.pow_eq, Nat.pow_zero, Nat.mul_one]
      unfold unitsPerOne
      rw [Nat.pow_eq, Nat.mul_assoc, ← Nat.mul_pow]
    simp only [nearest, hd, ht, hh, decide_false, Bool.or_self, Bool.false_eq_true, ↓reduceIte]
    rw [hnum, roundUnits_units n (den_pos _)]
    omega

/-- The search ends with a decimal of the pattern, as the finest grid has one. -/
theorem nearest_firstHit {n : Nat} (h : n < infinity) (g : Nat) :
    (firstHit n g).nearest = n := by
  induction g with
  | zero => exact nearest_finest h
  | succ g ih =>
    simp only [firstHit]
    split
    · next d hd => exact nearest_of_hit? hd
    · exact ih

/-- The shortest decimal stands for its double again. -/
theorem nearest_shortest {n : Nat} (h : n < infinity) : (shortest n).nearest = n :=
  nearest_firstHit h _

example : shortest 0x3FB999999999999A = ⟨1, -1⟩ := by decide +kernel

/-- Of the numbers of one digit that read back as the least double, 5 is the nearest. -/
example : shortest 1 = ⟨5, -324⟩ := by decide +kernel

example : shortest (infinity - 1) = ⟨17976931348623157, 292⟩ := by decide +kernel

end LineCalc.Decimal
