import LineCalc.Line
import LineCalc.Proofs.Binary64.Sign
import LineCalc.Proofs.Decimal.Shortest
import LineCalc.Proofs.Decimal.Typed
import LineCalc.Proofs.Line.Flat
import LineCalc.Proofs.Line.Stray

/-!
# LineCalc.Proofs.Line.Display

A result that is typed in again.  The display of a finite double is its sign
and the parts of a number that is read as its magnitude
(`Decimal.exists_parts_display`).  Without an exponent it is a line of one
operand, so it has the double as its value, the sign included; with an
exponent, and where the double is not finite, the display has a letter and is
no expression: `Line.evaluate_display`.
-/

namespace LineCalc

open Binary64 Decimal

variable {x : Float}

/-- A zero, or a double from `10^-4` on and below `10^16` in magnitude. -/
def Binary64.IsPlain (x : Float) : Prop :=
  isFinite x = true ∧ (pattern x = 0 ∨
    (10 : ℚ) ^ (-4 : ℤ) ≤ magnitude (pattern x) ∧ magnitude (pattern x) < 10 ^ (16 : ℤ))

namespace Decimal

/-! ## the parts of a display -/

/-- A double with a whole number is finite and has its magnitude. -/
theorem whole?_eq_some {k : Nat} (h : whole? x = some k) :
    isFinite x = true ∧ magnitude (pattern x) = k := by
  rw [whole?] at h
  split at h
  · next hwhole =>
    simp only [Bool.and_eq_true, decide_eq_true_eq] at hwhole
    cases h
    have hunits : units (pattern x) = floor x * unitsPerOne :=
      (Nat.div_mul_cancel (Nat.dvd_of_mod_eq_zero hwhole.2)).symm
    have hpos : (unitsPerOne : ℚ) ≠ 0 := by exact_mod_cast unitsPerOne_pos.ne'
    refine ⟨hwhole.1, ?_⟩
    rw [magnitude, hunits, Nat.cast_mul, mul_div_cancel_right₀ _ hpos]
  · simp at h

/-- A whole number below the display's bound is plain. -/
theorem isPlain_of_whole {k : Nat} (h : whole? x = some k) (hk : k < displayBound) : IsPlain x := by
  obtain ⟨hfinite, hvalue⟩ := whole?_eq_some h
  refine ⟨hfinite, ?_⟩
  by_cases h0 : pattern x = 0
  · exact .inl h0
  · right
    have hpos : (0 : ℚ) < magnitude (pattern x) :=
      div_pos (by exact_mod_cast units_pos (Nat.pos_of_ne_zero h0))
        (by exact_mod_cast unitsPerOne_pos)
    rw [hvalue] at hpos ⊢
    have hone : (1 : ℚ) ≤ k := by exact_mod_cast Nat.succ_le_of_lt (by exact_mod_cast hpos)
    have hbound : (k : ℚ) < (10 ^ 16 : ℕ) := by exact_mod_cast hk
    refine ⟨le_trans (by norm_num) hone, lt_of_lt_of_eq hbound (by norm_num)⟩

/-- The display of a finite double is its sign, and a number that is read as its magnitude; the
number has no exponent if the magnitude is zero or in the range of the positional form. -/
theorem exists_parts_display (h : isFinite x = true) : ∃ p : Parts,
    display x = Layout.withSign (isNegative x) (p.text .document) ∧
      p.decimal.nearest = pattern x ∧ (p.exponent? = none ↔ IsPlain x) := by
  have hn : pattern x < infinity := of_decide_eq_true h
  by_cases hwhole : ∃ k, whole? x = some k ∧ k < displayBound
  · obtain ⟨k, hk, hlt⟩ := hwhole
    refine ⟨.integer k, ?_, ?_, iff_of_true rfl (isPlain_of_whole hk hlt)⟩
    · simp [display, hk, hlt, Parts.text, Parts.integer, Parts.pointPart, Parts.exponentPart]
    · apply nearest_of_value_eq hn.le
      rw [Parts.value_integer, (whole?_eq_some hk).2]
  · have h0 : pattern x ≠ 0 := by
      intro h0
      refine hwhole ⟨0, ?_, by decide⟩
      simp [whole?, h, floor, h0, units, significand]
    obtain ⟨p, htext, hvalue, -, hnone⟩ := Layout.document.exists_parts (shortest (pattern x))
    refine ⟨p, ?_, ?_, ?_⟩
    · have hdisplay : display x = Layout.document.write x := by
        rw [display]
        split
        · next k hk => rw [if_neg fun hlt => hwhole ⟨k, hk, hlt⟩]
        · rfl
      rw [hdisplay, Layout.write_finite h, htext]
    · rw [nearest_congr hvalue, nearest_shortest hn]
    · rw [hnone (digits_shortest_pos hn h0).ne', isPositional_shortest_iff hn h0]
      simp [IsPlain, h, h0]

/-- Where a double is not finite, its display has a capital letter. -/
theorem exists_letter_display (h : isFinite x = false) :
    ∃ c ∈ display x, isStray c = true ∧ c ≠ '.' := by
  have hn : infinity ≤ pattern x := not_lt.mp (of_decide_eq_false h)
  have hdisplay : display x = Layout.document.write x := by simp [display, whole?, h]
  rw [hdisplay, Layout.write]
  split
  · exact ⟨'N', by decide, by decide, by decide⟩
  · refine ⟨'I', ?_, by decide, by decide⟩
    rw [Layout.writeMagnitude, if_neg (by omega)]
    cases isNegative x <;> decide

end Decimal

/-! ## lines of one operand -/

variable {s : Settings} {p : Parts}

/-- A number without an exponent, with its sign. -/
def Decimal.Parts.operand (p : Parts) (h : p.exponent? = none) (negative trailingDot : Bool) :
    Operand trailingDot where
  sign? := if negative then some .minus else none
  lexeme := p.text .document
  isNumber_lexeme := p.isNumber_text h trailingDot

/-- The operand of written parts has the double nearest to them, with their sign. -/
theorem Decimal.Parts.value_operand (h : p.exponent? = none) (negative trailingDot : Bool) :
    (p.operand h negative trailingDot).value .binary64 = p.decimal.toDouble negative := by
  have hmagnitude : (p.operand h negative trailingDot).magnitude = p.decimal.toDouble false :=
    Option.get_of_eq_some _ (p.numeral?_text h)
  have hlt : p.decimal.nearest < 2 ^ 63 :=
    Nat.lt_of_le_of_lt (nearest_le_infinity _) (by decide)
  rw [Operand.value, hmagnitude]
  cases negative with
  | false => rfl
  | true => exact neg_ofPattern hlt

/-- The operand of written parts is written as they are. -/
theorem Decimal.Parts.lexemes_operand (h : p.exponent? = none) (negative trailingDot : Bool) :
    lexemes (p.operand h negative trailingDot).tokens =
      Layout.withSign negative (p.text .document) := by
  cases negative with
  | false => exact List.append_nil _
  | true => exact congrArg ('-' :: ·) (List.append_nil _)

namespace Line

/-- A line of one operand has its value. -/
theorem evaluate_operand (x : Operand s.trailingDot) :
    evaluate s (lexemes x.tokens) = .ok (x.value .binary64) := by
  have hread := read_lexemes (.term (.factor x.derives_tokens)) fun t ht => x.isValid_of_mem ht
  rw [evaluate_of_read hread, Expr.evaluate, Expr.evaluateWith_eq_denote, Operand.expr,
    Operand.value]
  split <;> rfl

/-- A double that is displayed without an exponent may be typed in again: under all settings the
value of its display is the double itself, with the sign of a zero.  Every other double, `NaN` and
the infinities among them, has a display that fails by the grammar. -/
theorem evaluate_display (s : Settings) (x : Float) :
    (IsPlain x → evaluate s (display x) = .ok x) ∧
      (¬ IsPlain x → ∃ g, evaluate s (display x) = .error (.reading (.grammar g))) := by
  by_cases hfinite : isFinite x = true
  · obtain ⟨p, hdisplay, hnearest, hnone⟩ := exists_parts_display hfinite
    rw [hdisplay]
    refine ⟨fun hplain => ?_, fun hplain => ?_⟩
    · rw [← p.lexemes_operand (hnone.mpr hplain) _ s.trailingDot, evaluate_operand,
        p.value_operand, toDouble, hnearest, ofPattern_pattern]
    · have hletter := Parts.mem_text_of_exponent? (l := .document) (mt hnone.mp hplain)
      apply evaluate_of_stray (c := 'e') _ (by decide) (by decide)
      cases isNegative x <;> simp [Layout.withSign, hletter]
  · refine ⟨fun hplain => absurd hplain.1 hfinite, fun _ => ?_⟩
    obtain ⟨c, hc, hstray, hpoint⟩ := exists_letter_display (Bool.eq_false_iff.mpr hfinite)
    exact evaluate_of_stray hc hstray hpoint

end Line

end LineCalc
