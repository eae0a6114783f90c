import LineCalc.Proofs.Cutting.Number
import LineCalc.Proofs.Text.Classes
import Mathlib.Data.List.TakeDrop

/-!
# LineCalc.Proofs.Decimal.Numeral

The numbers of an expression are numerals.  A numeral is read in steps, each
of which could refuse it.  What a number is made of, digits with possibly a
point and further digits, passes them all (`exists_numeral`): the digits of any
script become plain digits, there are no underscores and no spaces to look
at, and on both sides of the point there is nothing but digits.
-/

namespace LineCalc

namespace Decimal

open Text

/-! ## the steps of reading a numeral -/

/-- A plain digit is the digit of a number below ten. -/
theorem exists_digitChar {c : Char} (h : isPlainDigit c = true) :
    ∃ d < 10, c = Nat.digitChar d := by
  have hc : '0'.toNat ≤ c.toNat ∧ c.toNat ≤ '9'.toNat := by
    simpa [isPlainDigit, Char.le_def, UInt32.le_iff_toNat_le] using h
  have hnine : '9'.toNat = '0'.toNat + 9 := rfl
  have hd : c.toNat - '0'.toNat < 10 := by omega
  refine ⟨c.toNat - '0'.toNat, hd, Char.toNat_inj.mp ?_⟩
  have hzero : '0'.toNat = 48 := rfl
  rw [Nat.toNat_digitChar_of_lt_ten hd]
  omega

/-- A digit of any script is read as one of the ten plain ones. -/
theorem isPlainDigit_plain {c : Char} (h : isDigit c = true) : isPlainDigit (plain c) = true := by
  obtain ⟨z, -, d, hd, hv, -⟩ := exists_zero h
  have hplain : ∀ d < 10, isPlainDigit (Nat.digitChar d) = true := by decide
  simp only [plain, isSpace_eq_false h, asciiDigit, hv]
  exact hplain d hd

theorem plain_point : plain '.' = '.' := by decide

/-- A text of plain digits and a point lacks every other character. -/
theorem notMem_of_pointed {trailingDot : Bool} {cs : List Char}
    (h : Pointed trailingDot isPlainDigit cs) {c : Char} (hc : isPlainDigit c = false)
    (hpoint : c ≠ '.') : c ∉ cs := by
  intro hmem
  obtain hd | hd := h.mem c hmem
  · simp [hc] at hd
  · exact hpoint hd

theorem dropUnderscores?_eq_some {cs : List Char} (h : '_' ∉ cs) (afterDigit : Bool) :
    dropUnderscores? afterDigit cs = some cs := by
  induction cs generalizing afterDigit with
  | nil => rfl
  | cons c cs ih =>
      simp only [List.mem_cons, not_or] at h
      rw [dropUnderscores?, if_neg (Ne.symm h.1), ih h.2]
      rfl

theorem trim_eq_self {cs : List Char} (h : ' ' ∉ cs) : trim cs = cs := by
  have keep : ∀ ds : List Char, ' ' ∉ ds → ds.dropWhile (· = ' ') = ds := by
    intro ds hd
    cases ds with
    | nil => rfl
    | cons d ds =>
        simp only [List.mem_cons, not_or] at hd
        simp [Ne.symm hd.1]
  rw [trim, keep cs h, keep cs.reverse (by simpa using h), List.reverse_reverse]

theorem spanDigits_self {ds : List Char} (hd : ∀ d ∈ ds, isPlainDigit d = true) :
    spanDigits ds = (ds, []) := by
  rw [spanDigits, List.span_eq_takeWhile_dropWhile, List.takeWhile_eq_self_iff.mpr hd,
    List.dropWhile_eq_nil_iff.mpr hd]

/-- Digits are taken up to the point. -/
theorem spanDigits_point {ds fs : List Char} (hd : ∀ d ∈ ds, isPlainDigit d = true) :
    spanDigits (ds ++ '.' :: fs) = (ds, '.' :: fs) := by
  have hpoint : ∀ c, ('.' :: fs).head? = some c → isPlainDigit c = false := by
    intro c hc
    cases hc
    decide
  rw [spanDigits, List.span_eq_takeWhile_dropWhile, takeWhile_append_eq hd hpoint,
    dropWhile_append_eq hd hpoint]

section

variable {ds fs : List Char}

/-- Digits alone are read as a whole number. -/
theorem decimal?_whole (hne : ds ≠ []) (hd : ∀ d ∈ ds, isPlainDigit d = true) :
    decimal? ds = some (ofDigits ds [] 0) := by
  simp [decimal?, spanDigits_self hd, hne, exponent?]

/-- Digits around a point are read as a number with a fraction. -/
theorem decimal?_point (hne : ds ≠ []) (hd : ∀ d ∈ ds, isPlainDigit d = true)
    (hf : ∀ f ∈ fs, isPlainDigit f = true) :
    decimal? (ds ++ '.' :: fs) = some (ofDigits ds fs 0) := by
  simp [decimal?, spanDigits_point hd, spanDigits_self hf, hne, exponent?]

end

/-- Plain digits with possibly a point among them are a decimal number. -/
theorem exists_decimal {trailingDot : Bool} {cs : List Char}
    (h : Pointed trailingDot isPlainDigit cs) : ∃ x, decimal? cs = some x := by
  cases h with
  | whole hne hd => exact ⟨_, decimal?_whole hne hd⟩
  | point hne hd hf _ => exact ⟨_, decimal?_point hne hd hf⟩

/-- A text that begins with a digit has no sign. -/
theorem splitSign_eq_self {d : Char} {ds : List Char} (h : isPlainDigit d = true) :
    splitSign (d :: ds) = (false, d :: ds) := by
  unfold splitSign
  split
  · next he => cases he; simp [isPlainDigit] at h
  · next he => cases he; simp [isPlainDigit] at h
  · rfl

/-- A text with the digits and the point of a decimal number is a numeral of its value. -/
theorem numeral?_of_decimal? {trailingDot : Bool} {cs : List Char} {x : Decimal}
    (h : Pointed trailingDot isPlainDigit (cs.map plain)) (hx : decimal? (cs.map plain) = some x) :
    numeral? cs = some (x.toDouble false) := by
  obtain ⟨d, ds, hds, hd⟩ := h.exists_cons
  have hunderscore := dropUnderscores?_eq_some
    (notMem_of_pointed (c := '_') h (by decide) (by decide)) false
  have hspace := trim_eq_self (notMem_of_pointed (c := ' ') h (by decide) (by decide))
  have hsign : splitSign (cs.map plain) = (false, cs.map plain) := by
    rw [hds, splitSign_eq_self hd]
  rw [numeral?, hunderscore, Option.bind_some, hspace, signed?, hsign]
  simp [hx]

/-- A number of an expression is a numeral. -/
theorem exists_numeral {trailingDot : Bool} {cs : List Char} (h : isNumber trailingDot cs = true) :
    ∃ x, numeral? cs = some x := by
  have hp : Pointed trailingDot isPlainDigit (cs.map plain) :=
    (pointed_of_isNumber h).map (fun c => isPlainDigit_plain) plain_point
  obtain ⟨x, hx⟩ := exists_decimal hp
  exact ⟨_, numeral?_of_decimal? hp hx⟩

end Decimal

/-- Every number token has a value. -/
theorem Token.exists_value {trailingDot : Bool} {t : Token} (hk : t.kind = .number)
    (h : isNumber trailingDot t.lexeme = true) : ∃ x, t.value = .ok x := by
  obtain ⟨x, hx⟩ := Decimal.exists_numeral h
  exact ⟨x, by simp [Token.value, hk, hx]⟩

end LineCalc
