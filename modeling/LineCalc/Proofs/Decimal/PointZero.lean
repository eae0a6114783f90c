import LineCalc.Proofs.Decimal.Whole
import LineCalc.Proofs.Line.Display

/-!
# LineCalc.Proofs.Decimal.PointZero

The display of a double beside its text in a message.  A text that ends with a
point and a zero is that of a whole number below `10^16`, and the display goes
without them; all other texts are displayed as they are
(`display_eq_withoutPointZero`).  So the two ways to a display agree, the
digits of a whole number and those of the shortest number that is read as it.
-/

namespace LineCalc.Decimal

open Binary64

variable {n k : Nat} {d : Decimal} {x : Float}

/-- A text without a point and a zero at its end, if it ends so. -/
def withoutPointZero (text : List Char) : List Char :=
  if ['.', '0'] <:+ text then text.dropLast.dropLast else text

/-- The final `.0` is what is taken away. -/
theorem withoutPointZero_append (text : List Char) :
    withoutPointZero (text ++ ['.', '0']) = text := by
  rw [withoutPointZero, if_pos (List.suffix_append _ _)]
  simp

/-! ## texts that end with a point and a zero -/

/-- No point is written in an exponent. -/
theorem point_notMem_exponentText (width : Nat) (e : Int) :
    '.' ∉ Layout.exponentText width e := by
  intro h
  simp only [Layout.exponentText, List.leftpad, List.mem_cons, List.mem_append] at h
  obtain h | h | h | h := h
  · cases h
  · split at h <;> cases h
  · exact absurd (isPlainDigit_of_mem_zeros h) (by decide)
  · exact absurd (isPlainDigit_of_mem_toDigits h) (by decide)

/-- A text ends with a point and a zero only if there is no exponent and the fraction is a zero. -/
theorem Parts.fraction_of_pointZero {p : Parts} {l : Layout}
    (hne : p.fraction ≠ [] ∨ p.exponent? ≠ none) (h : ['.', '0'] <:+ p.text l) :
    p.exponent? = none ∧ p.fraction = ['0'] := by
  cases he : p.exponent? with
  | some e =>
      -- the exponent has two characters at least, none of them a point
      have hlen : 2 ≤ (Layout.exponentText l.exponentWidth e).length := by
        simp [Layout.exponentText]
      rw [text, he, exponentPart] at h
      have hend := List.suffix_of_suffix_length_le h (List.suffix_append _ _) hlen
      exact absurd (hend.subset (by simp)) (point_notMem_exponentText _ _)
  | none =>
      have hfraction : p.fraction ≠ [] := hne.resolve_right (not_not.mpr he)
      rw [text_of_exponent?_eq_none he, pointPart_eq hfraction] at h
      have hlen : 2 ≤ ('.' :: p.fraction).length :=
        Nat.succ_le_succ (List.length_pos_iff.mpr hfraction)
      have hend := List.suffix_of_suffix_length_le h (List.suffix_append _ _) hlen
      obtain heq | hin := List.suffix_cons_iff.mp hend
      · exact ⟨rfl, (List.cons.inj heq).2.symm⟩
      · exact absurd (p.isPlainDigit_fraction '.' (hin.subset (by simp))) (by decide)

/-- Parts that end with `.0` have a whole value. -/
theorem Parts.value_of_fraction {p : Parts} (he : p.exponent? = none) (hf : p.fraction = ['0']) :
    ∃ k : ℕ, p.decimal.value = k := by
  have hdigits : Nat.ofDigitChars 10 (p.whole ++ ['0']) 0 =
      Nat.ofDigitChars 10 p.whole 0 * 10 ^ 1 := by
    rw [Nat.ofDigitChars_append, ← List.replicate_one, Nat.ofDigitChars_replicate_zero,
      Nat.mul_comm]
  refine ⟨Nat.ofDigitChars 10 p.whole 0, ?_⟩
  simp only [decimal, he, hf, ofDigits, hdigits, value_mul_pow]
  simp [value]

/-- A double whose shortest number is below `10^16` is so itself. -/
theorem IsShortest.magnitude_lt (hd : IsShortest n d) (h : d.value < 10 ^ (16 : ℤ)) :
    magnitude n < 10 ^ (16 : ℤ) := by
  by_contra hge
  -- otherwise the bound is read as the double too, which it is, and has one digit
  have hle : nearest ⟨1, 16⟩ ≤ n := nearest_le (by rw [value_one]; exact not_lt.mp hge)
  have hmono : d.nearest ≤ nearest ⟨1, 16⟩ := nearest_mono (by rw [value_one]; exact h.le)
  have hbound : nearest ⟨1, 16⟩ = n := Nat.le_antisymm hle (hd.nearest_eq ▸ hmono)
  have hexact : value ⟨1, 16⟩ = magnitude n := by
    rw [← hbound, magnitude_nearest (c := 5 ^ 16) (s := 16) (by decide) (by decide)
      (by norm_num [value])]
  have hvalue := hd.value_eq_magnitude hbound hexact (digitCount_one.trans_le d.digitCount_pos)
  rw [hvalue] at h
  exact hge h

/-- The text of a double ends with a point and a zero exactly if the double is a whole number below
`10^16`. -/
theorem IsShortest.pointZero_iff (hd : IsShortest n d) (hn : n < infinity) :
    ['.', '0'] <:+ Layout.message.writeDecimal d ↔
      ∃ k : ℕ, magnitude n = k ∧ k < displayBound := by
  constructor
  · intro h
    obtain ⟨p, htext, hvalue, hne, hnone⟩ := Layout.message.exists_parts d
    obtain ⟨he, hf⟩ := p.fraction_of_pointZero hne (htext ▸ h)
    obtain ⟨w, hw⟩ := p.value_of_fraction he hf
    obtain ⟨k, hk⟩ := exists_magnitude_nearest (hvalue.symm.trans hw)
    rw [hd.nearest_eq] at hk
    refine ⟨k, hk, ?_⟩
    have hbelow : d.value < 10 ^ (16 : ℤ) := by
      obtain hzero | hpos := Nat.eq_zero_or_pos d.digits
      · simp [value, hzero]
      · exact (value_lt_pow_iff hpos 16).mpr ((hnone hpos.ne').mp he).2
    rw [lt_displayBound_iff, ← hk]
    exact hd.magnitude_lt hbelow
  · rintro ⟨k, hk, hlt⟩
    rw [hd.writeDecimal_eq hn hk hlt]
    exact List.suffix_append _ _

/-! ## displays -/

/-- The whole number of a finite double is its magnitude. -/
theorem whole?_iff (h : isFinite x = true) : whole? x = some k ↔ magnitude (pattern x) = k := by
  refine ⟨fun hk => (whole?_eq_some hk).2, fun hk => ?_⟩
  have hone : (unitsPerOne : ℚ) ≠ 0 := by exact_mod_cast unitsPerOne_pos.ne'
  rw [magnitude, div_eq_iff hone] at hk
  have hunits : units (pattern x) = k * unitsPerOne := by exact_mod_cast hk
  rw [whole?, floor, hunits, Nat.mul_mod_left, Nat.mul_div_cancel k unitsPerOne_pos, h]
  rfl

/-- The two layouts differ only where a double is not finite. -/
theorem write_document (h : isFinite x = true) :
    Layout.document.write x = Layout.message.write x := by
  rw [Layout.write_finite h, Layout.write_finite h]
  rfl

/-- A sign in front does not change how a text ends. -/
theorem suffix_withSign_iff (negative : Bool) (text : List Char) :
    ['.', '0'] <:+ Layout.withSign negative text ↔ ['.', '0'] <:+ text := by
  cases negative with
  | false => rfl
  | true =>
      refine List.suffix_cons_iff.trans (or_iff_right fun h => ?_)
      cases h

/-- The shortest number of a whole double below `10^16` is written as its display, a point and a
zero. -/
theorem written_whole (hd : IsShortest (pattern x) d) (hk : whole? x = some k)
    (hlt : k < displayBound) :
    Layout.withSign (isNegative x) (Layout.message.writeDecimal d) = display x ++ ['.', '0'] := by
  obtain ⟨hfinite, hmagnitude⟩ := whole?_eq_some hk
  have hdisplay : display x = Layout.withSign (isNegative x) (Nat.toDigits 10 k) := by
    simp only [display, hk, if_pos hlt]
  rw [hdisplay, hd.writeDecimal_eq (of_decide_eq_true hfinite) hmagnitude hlt]
  cases isNegative x <;> rfl

/-- A finite double is written in a message as a number that is read back as it, with as few digits
as there can be and closest to it among those; the display is this text, without the point and the
zero if it ends so.  Whichever such number it is, where there are several: its text ends with a
point and a zero exactly if the double is a whole number below `10^16`, and then the display has the
digits before the point, with the sign of a zero. -/
theorem display_eq_withoutPointZero (x : Float) (h : isFinite x = true) :
    (∃ d, IsShortest (pattern x) d ∧ Layout.message.write x =
      Layout.withSign (isNegative x) (Layout.message.writeDecimal d)) ∧
    display x = withoutPointZero (Layout.message.write x) ∧
    ∀ d, IsShortest (pattern x) d →
      (['.', '0'] <:+ Layout.withSign (isNegative x) (Layout.message.writeDecimal d) ↔
        ∃ k, whole? x = some k ∧ k < displayBound) ∧
      ∀ k, whole? x = some k → k < displayBound →
        Layout.withSign (isNegative x) (Layout.message.writeDecimal d) =
          display x ++ ['.', '0'] := by
  have hn : pattern x < infinity := of_decide_eq_true h
  have hiff : ∀ d, IsShortest (pattern x) d →
      (['.', '0'] <:+ Layout.withSign (isNegative x) (Layout.message.writeDecimal d) ↔
        ∃ k, whole? x = some k ∧ k < displayBound) := by
    intro d hd
    rw [suffix_withSign_iff, hd.pointZero_iff hn]
    simp only [whole?_iff h]
  have hwrite := Layout.write_finite (l := .message) h
  have hd := isShortest_shortest hn
  refine ⟨⟨_, hd, hwrite⟩, ?_, fun d hd => ⟨hiff d hd, fun k hk hlt => written_whole hd hk hlt⟩⟩
  by_cases hwhole : ∃ k, whole? x = some k ∧ k < displayBound
  · obtain ⟨k, hk, hlt⟩ := hwhole
    rw [hwrite, written_whole hd hk hlt, withoutPointZero_append]
  · have hend := mt (hiff _ hd).mp hwhole
    rw [withoutPointZero, hwrite, if_neg hend, ← hwrite, ← write_document h, display]
    split
    · next k hk => rw [if_neg fun hlt => hwhole ⟨k, hk, hlt⟩]
    · rfl

/-- A whole number of more than 53 bits, and the zero with a sign. -/
theorem display_beyondBits :
    isFinite 9007199254740994 = true ∧ isFinite (-0) = true ∧
      Layout.message.write 9007199254740994 = "9007199254740994.0".toList ∧
      display 9007199254740994 = "9007199254740994".toList ∧
      Layout.message.write (-0) = "-0.0".toList ∧ display (-0) = "-0".toList := by
  have hwhole : isFinite 9007199254740994 = true := by decide +kernel
  have hzero : isFinite (-0) = true := by decide +kernel
  have hwrite : Layout.message.write 9007199254740994 = "9007199254740994.0".toList := by
    decide +kernel
  have hwrite' : Layout.message.write (-0) = "-0.0".toList := by decide +kernel
  obtain ⟨-, hdisplay, -⟩ := display_eq_withoutPointZero 9007199254740994 hwhole
  obtain ⟨-, hdisplay', -⟩ := display_eq_withoutPointZero (-0) hzero
  rw [hwrite] at hdisplay
  rw [hwrite'] at hdisplay'
  exact ⟨hwhole, hzero, hwrite, hdisplay, hwrite', hdisplay'⟩

end LineCalc.Decimal
