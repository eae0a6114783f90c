import LineCalc.Text.Blank
import LineCalc.Text.Digit

/-!
# LineCalc.Proofs.Text.Classes

The tables of characters against each other.  A table is searched from its
beginning, and since it ascends a character is found exactly if one of the
ranges holds it (`Ranges.contains_iff`, `isBlank_iff`); a digit lies in the
run of one of the zeros (`exists_zero`).  Two classes are apart because their
ranges are, which is checked on the tables once: `isBlank_eq_false`.
-/

namespace LineCalc.Text

/-! ## ranges -/

namespace Ranges

variable {n : Nat} {r : Nat × Nat} {rs : Ranges}

/-- The ranges after the first one are in order. -/
theorem Ascending.tail (h : Ascending (r :: rs)) : Ascending rs := by
  cases rs with
  | nil => trivial
  | cons s rs => exact h.2.2

/-- The first range begins before all that follow it. -/
theorem Ascending.first_le (h : Ascending (r :: rs)) : ∀ s ∈ rs, r.1 ≤ s.1 := by
  induction rs generalizing r with
  | nil => simp
  | cons s rs ih =>
      obtain ⟨hr, hrs, htail⟩ := h
      have hfirst : r.1 ≤ s.1 := by omega
      exact List.forall_mem_cons.mpr ⟨hfirst, fun t ht => Nat.le_trans hfirst (ih htail t ht)⟩

/-- Where the ranges ascend, the lookup finds what one of them holds and nothing else. -/
theorem contains_iff (h : rs.Ascending) :
    rs.contains n = true ↔ ∃ r ∈ rs, r.1 ≤ n ∧ n ≤ r.2 := by
  induction rs with
  | nil => simp [contains]
  | cons r rs ih =>
      simp only [contains, Bool.and_eq_true, Bool.or_eq_true, decide_eq_true_eq, ih h.tail,
        List.mem_cons, exists_eq_or_imp, and_or_left]
      refine or_congr_right ⟨fun hn => hn.2, fun hn => ⟨?_, hn⟩⟩
      obtain ⟨s, hs, hle, -⟩ := hn
      exact Nat.le_trans (h.first_le s hs) hle

end Ranges

/-! ## digits -/

/-- A code point with a place in a run is in the run of one of the zeros. -/
theorem exists_zero_of_placeIn {n d : Nat} {zeros : List Nat} (h : placeIn n zeros = some d) :
    ∃ z ∈ zeros, n = z + d := by
  induction zeros with
  | nil => simp [placeIn] at h
  | cons z zs ih =>
      simp only [placeIn] at h
      split at h
      · simp at h
      · split at h
        · simp only [Option.some.injEq] at h
          exact ⟨z, List.mem_cons_self, by omega⟩
        · obtain ⟨z', hz', hn⟩ := ih h
          exact ⟨z', List.mem_cons_of_mem _ hz', hn⟩

/-- A digit lies in the run of one of the zeros. -/
theorem exists_zero {c : Char} (h : isDigit c = true) :
    ∃ z ∈ digitZeros, ∃ d < 10, digitValue? c = some d ∧ c.toNat = z + d := by
  obtain ⟨d, hd⟩ := Option.isSome_iff_exists.mp h
  obtain ⟨z, hz, hn⟩ := exists_zero_of_placeIn hd
  exact ⟨z, hz, d, digitValue?_lt_ten hd, hd, hn⟩

/-! ## digits and blanks -/

/-- No run of digits meets a range of blanks. -/
theorem digitZeros_apart_blanks :
    ∀ z ∈ digitZeros, ∀ r ∈ spaceRanges ++ separatorRanges, z + 9 < r.1 ∨ r.2 < z := by
  decide

/-- The blanks are the code points of the two tables of spaces. -/
theorem isBlank_iff {c : Char} : isBlank c = true ↔
    ∃ r ∈ spaceRanges ++ separatorRanges, r.1 ≤ c.toNat ∧ c.toNat ≤ r.2 := by
  simp only [isBlank, isSpace, Bool.or_eq_true, Ranges.contains_iff ascending_spaceRanges,
    Ranges.contains_iff ascending_separatorRanges, List.mem_append, or_and_right, exists_or]

/-- A digit is no blank. -/
theorem isBlank_eq_false {c : Char} (h : isDigit c = true) : isBlank c = false := by
  rw [Bool.eq_false_iff]
  intro hb
  obtain ⟨z, hz, d, hd, -, hn⟩ := exists_zero h
  obtain ⟨r, hr, hc⟩ := isBlank_iff.mp hb
  have := digitZeros_apart_blanks z hz r hr
  omega

/-- Nor is a digit white space. -/
theorem isSpace_eq_false {c : Char} (h : isDigit c = true) : isSpace c = false := by
  have := isBlank_eq_false h
  simp only [isBlank, Bool.or_eq_false_iff] at this
  exact this.1

end LineCalc.Text
