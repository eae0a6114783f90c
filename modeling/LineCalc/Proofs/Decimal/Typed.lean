import LineCalc.Proofs.Decimal.Numeral
import LineCalc.Proofs.Decimal.Parts

/-!
# LineCalc.Proofs.Decimal.Typed

A number that is written without an exponent may be typed: its text is a
number of an expression under either policy for the point, and is read with
the value of its parts (`Parts.numeral?_text`).  With an exponent it contains
a letter, which no number does.
-/

namespace LineCalc.Decimal

open Text

variable {c : Char} {l : Layout} {p : Parts}

theorem isDigit_of_isPlainDigit (h : isPlainDigit c = true) : isDigit c = true := by
  obtain ⟨d, hd, rfl⟩ := exists_digitChar h
  revert d
  decide

theorem plain_of_isPlainDigit (h : isPlainDigit c = true) : plain c = c := by
  obtain ⟨d, hd, rfl⟩ := exists_digitChar h
  revert d
  decide

namespace Parts

/-- Without an exponent the text ends with the fraction. -/
theorem text_of_exponent?_eq_none (h : p.exponent? = none) :
    p.text l = p.whole ++ pointPart p.fraction := by
  rw [text, h, exponentPart, List.append_nil]

/-- Without an exponent the text is digits, with a point among them possibly. -/
theorem pointed_text (h : p.exponent? = none) (trailingDot : Bool) :
    Pointed trailingDot isPlainDigit (p.text l) := by
  rw [text_of_exponent?_eq_none h]
  by_cases hf : p.fraction = []
  · rw [hf, pointPart, List.append_nil]
    exact .whole p.whole_ne_nil p.isPlainDigit_whole
  · rw [pointPart_eq hf]
    exact .point p.whole_ne_nil p.isPlainDigit_whole p.isPlainDigit_fraction (.inr hf)

/-- Without an exponent the text is read back as the decimal number of the parts. -/
theorem decimal?_text (h : p.exponent? = none) : decimal? (p.text l) = some p.decimal := by
  rw [text_of_exponent?_eq_none h, decimal, h]
  by_cases hf : p.fraction = []
  · rw [hf, pointPart, List.append_nil]
    exact decimal?_whole p.whole_ne_nil p.isPlainDigit_whole
  · rw [pointPart_eq hf]
    exact decimal?_point p.whole_ne_nil p.isPlainDigit_whole p.isPlainDigit_fraction

/-- What is written has plain digits only. -/
theorem map_plain_text (h : p.exponent? = none) : (p.text l).map plain = p.text l := by
  have hplain : ∀ c ∈ p.text l, plain c = id c := by
    intro c hc
    obtain hd | rfl := (pointed_text h false).mem c hc
    · exact plain_of_isPlainDigit hd
    · exact plain_point
  rw [List.map_congr_left hplain, List.map_id]

/-- Without an exponent the text is a number of an expression, with a point or without one. -/
theorem isNumber_text (h : p.exponent? = none) (trailingDot : Bool) :
    isNumber trailingDot (p.text l) = true := by
  have hdigit : ∀ c, isPlainDigit c = true → isDigit (plain c) = true := by
    intro c hc
    rw [plain_of_isPlainDigit hc]
    exact isDigit_of_isPlainDigit hc
  apply isNumber_of_pointed
  rw [← map_plain_text h]
  exact (pointed_text h trailingDot).map hdigit plain_point

/-- Without an exponent the text is a numeral, of the double nearest to its parts. -/
theorem numeral?_text (h : p.exponent? = none) :
    numeral? (p.text l) = some (p.decimal.toDouble false) := by
  refine numeral?_of_decimal? (?_ : Pointed false isPlainDigit _) ?_
  · rw [map_plain_text h]
    exact pointed_text h false
  · rw [map_plain_text h, decimal?_text h]

/-- An exponent has a letter. -/
theorem mem_text_of_exponent? (h : p.exponent? ≠ none) : 'e' ∈ p.text l := by
  obtain ⟨e, he⟩ := Option.ne_none_iff_exists'.mp h
  simp [text, he, exponentPart, Layout.exponentText]

end Parts

end LineCalc.Decimal
