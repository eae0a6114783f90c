import LineCalc.Decimal.Layout
import LineCalc.Proofs.Decimal.Value

/-!
# LineCalc.Proofs.Decimal.Parts

The parts of a number as it is written: digits, possibly a point and further
digits, possibly an exponent.  Every layout writes a number as such `Parts`
with the value of the number (`Layout.exists_parts`).  In the positional form
the point moves into the digits and zeros fill up on either side, which may
change the digits but not the value; in the form with an exponent the digits
stay as they are.
-/

namespace LineCalc.Decimal

/-- Digits before a point and after it, and an exponent if there is one. -/
structure Parts where
  whole : List Char
  fraction : List Char
  exponent? : Option Int
  isPlainDigit_whole : ∀ c ∈ whole, isPlainDigit c = true
  isPlainDigit_fraction : ∀ c ∈ fraction, isPlainDigit c = true
  whole_ne_nil : whole ≠ []
  /-- No zero stands in front of another digit. -/
  zero_alone : whole.head? = some '0' → whole = ['0']

/-! ## digits -/

variable {m k : Nat} {point : Int} {l : Layout} {c : Char}

theorem isPlainDigit_of_mem_toDigits (h : c ∈ Nat.toDigits 10 m) : isPlainDigit c = true := by
  have := Nat.isDigit_of_mem_toDigits (by decide) (by decide) h
  simpa [Char.isDigit, isPlainDigit, Char.le_def] using this

theorem isPlainDigit_of_mem_zeros (h : c ∈ List.replicate k '0') : isPlainDigit c = true := by
  obtain rfl := List.eq_of_mem_replicate h
  decide

/-- The digits of a number do not begin with a zero, unless it is zero. -/
theorem eq_zero_of_head?_toDigits (h : (Nat.toDigits 10 m).head? = some '0') : m = 0 := by
  induction m using Nat.strongRecOn with
  | ind m ih =>
      rw [Nat.toDigits_eq_if (by decide)] at h
      split at h
      · simpa using h
      · rw [List.head?_append_of_ne_nil _ Nat.toDigits_ne_nil] at h
        have := ih (m / 10) (by omega) h
        omega

namespace Parts

/-- The point and the digits after it, or nothing if there are none. -/
def pointPart : List Char → List Char
  | [] => []
  | fraction => '.' :: fraction

/-- The exponent as a layout writes it, or nothing if there is none. -/
def exponentPart (l : Layout) : Option Int → List Char
  | none => []
  | some e => Layout.exponentText l.exponentWidth e

/-- The parts as a layout writes them. -/
def text (l : Layout) (p : Parts) : List Char :=
  p.whole ++ pointPart p.fraction ++ exponentPart l p.exponent?

/-- The decimal number that the parts are read as. -/
def decimal (p : Parts) : Decimal := ofDigits p.whole p.fraction (p.exponent?.getD 0)

theorem pointPart_eq {fraction : List Char} (h : fraction ≠ []) :
    pointPart fraction = '.' :: fraction := by
  cases fraction with
  | nil => exact absurd rfl h
  | cons c cs => rfl

/-! ## the positional form -/

/-- A number below one: a zero, and the digits after the zeros that come before them. -/
def belowOne (m k : Nat) : Parts where
  whole := ['0']
  fraction := List.replicate k '0' ++ Nat.toDigits 10 m
  exponent? := none
  isPlainDigit_whole _ hc := isPlainDigit_of_mem_zeros (k := 1) hc
  isPlainDigit_fraction c hc :=
    (List.mem_append.mp hc).elim isPlainDigit_of_mem_zeros isPlainDigit_of_mem_toDigits
  whole_ne_nil := by decide
  zero_alone _ := rfl

/-- Zeros in front of the digits move them behind the point. -/
theorem decimal_belowOne (m k : Nat) :
    (belowOne m k).decimal = ⟨m, -k - (Nat.toDigits 10 m).length⟩ := by
  have hdigits :
      Nat.ofDigitChars 10 ('0' :: (List.replicate k '0' ++ Nat.toDigits 10 m)) 0 = m := by
    rw [← List.cons_append, ← List.replicate_succ, Nat.ofDigitChars_append,
      Nat.ofDigitChars_replicate_zero, Nat.mul_zero, Nat.ofDigitChars_ten_toDigits]
  simp only [decimal, belowOne, ofDigits, List.cons_append, List.nil_append, hdigits,
    List.length_append, List.length_replicate, Option.getD_none, Decimal.mk.injEq, true_and]
  omega

/-- A number whose point is among its digits. -/
def inside (hm : m ≠ 0) (hk : 0 < k) : Parts where
  whole := (Nat.toDigits 10 m).take k
  fraction := (Nat.toDigits 10 m).drop k
  exponent? := none
  isPlainDigit_whole c hc := isPlainDigit_of_mem_toDigits (List.mem_of_mem_take hc)
  isPlainDigit_fraction c hc := isPlainDigit_of_mem_toDigits (List.mem_of_mem_drop hc)
  whole_ne_nil := by simpa [Nat.toDigits_ne_nil] using Nat.ne_of_gt hk
  zero_alone hzero := by
    rw [List.head?_take, if_neg (Nat.ne_of_gt hk)] at hzero
    exact absurd (eq_zero_of_head?_toDigits hzero) hm

/-- A point among the digits leaves them and sets the exponent. -/
theorem decimal_inside (hm : m ≠ 0) (hk : 0 < k) (hlen : k ≤ (Nat.toDigits 10 m).length) :
    (inside hm hk).decimal = ⟨m, k - (Nat.toDigits 10 m).length⟩ := by
  simp only [decimal, inside, ofDigits, List.take_append_drop, Nat.ofDigitChars_ten_toDigits,
    List.length_drop, Option.getD_none, Decimal.mk.injEq, true_and]
  omega

/-- A whole number: its digits, the zeros after them, and a zero for the fraction. -/
def entire (m k : Nat) (hk : m = 0 → k = 0) : Parts where
  whole := Nat.toDigits 10 m ++ List.replicate k '0'
  fraction := ['0']
  exponent? := none
  isPlainDigit_whole c hc :=
    (List.mem_append.mp hc).elim isPlainDigit_of_mem_toDigits isPlainDigit_of_mem_zeros
  isPlainDigit_fraction _ hc := isPlainDigit_of_mem_zeros (k := 1) hc
  whole_ne_nil := by simp [Nat.toDigits_ne_nil]
  zero_alone hzero := by
    rw [List.head?_append_of_ne_nil _ Nat.toDigits_ne_nil] at hzero
    obtain rfl := eq_zero_of_head?_toDigits hzero
    simp [hk rfl]

/-- Zeros behind the digits stand for the exponent. -/
theorem value_entire (hk : m = 0 → k = 0) : (entire m k hk).decimal.value = value ⟨m, k⟩ := by
  have hdigits : Nat.ofDigitChars 10 (Nat.toDigits 10 m ++ List.replicate k '0' ++ ['0']) 0 =
      m * 10 ^ (k + 1) := by
    rw [List.append_assoc, ← List.replicate_succ', Nat.ofDigitChars_append,
      Nat.ofDigitChars_replicate_zero, Nat.ofDigitChars_ten_toDigits, Nat.mul_comm]
  simp only [decimal, entire, ofDigits, hdigits, value_mul_pow]
  simp

/-- The positional form writes parts without an exponent that have the value of the number. -/
theorem exists_positional (l : Layout) (h : m = 0 → point = 1) :
    ∃ p : Parts, p.exponent? = none ∧ p.fraction ≠ [] ∧
      Layout.positional (Nat.toDigits 10 m) point = p.text l ∧
      p.decimal.value = value ⟨m, point - (Nat.toDigits 10 m).length⟩ := by
  have hpos : 0 < (Nat.toDigits 10 m).length := Nat.length_toDigits_pos
  rw [Layout.positional]
  split
  · next hle =>
    have hne : List.replicate (-point).toNat '0' ++ Nat.toDigits 10 m ≠ [] := by simp
    refine ⟨belowOne m (-point).toNat, rfl, hne, ?_, ?_⟩
    · simp [text, belowOne, pointPart_eq hne, exponentPart]
    · rw [decimal_belowOne]
      congr 2
      omega
  · split
    · next hgt hlt =>
      have hm : m ≠ 0 := by
        rintro rfl
        simp [h rfl] at hlt
      have hk : 0 < point.toNat := by omega
      have hne : (Nat.toDigits 10 m).drop point.toNat ≠ [] := by
        rw [ne_eq, List.drop_eq_nil_iff]
        omega
      refine ⟨inside hm hk, rfl, hne, ?_, ?_⟩
      · simp [text, inside, pointPart_eq hne, exponentPart]
      · rw [decimal_inside hm hk (by omega)]
        congr 2
        omega
    · next hgt hge =>
      have hk : m = 0 → point.toNat - (Nat.toDigits 10 m).length = 0 := by
        intro hm
        rw [h hm]
        omega
      refine ⟨entire m (point.toNat - (Nat.toDigits 10 m).length) hk, rfl, by simp [entire], ?_, ?_⟩
      · simp [text, entire, pointPart, exponentPart]
      · rw [value_entire]
        congr 2
        omega

/-! ## whole numbers -/

/-- A whole number without a fraction. -/
def integer (k : Nat) : Parts where
  whole := Nat.toDigits 10 k
  fraction := []
  exponent? := none
  isPlainDigit_whole _ hc := isPlainDigit_of_mem_toDigits hc
  isPlainDigit_fraction := by simp
  whole_ne_nil := Nat.toDigits_ne_nil
  zero_alone hzero := by
    obtain rfl := eq_zero_of_head?_toDigits hzero
    rfl

/-- A whole number written as one has its value. -/
theorem value_integer (k : Nat) : (integer k).decimal.value = k := by
  simp [decimal, integer, ofDigits, value]

/-! ## the form with an exponent -/

/-- The digits with a point after the first. -/
def scientific (m : Nat) (e : Int) : Parts where
  whole := (Nat.toDigits 10 m).take 1
  fraction := (Nat.toDigits 10 m).drop 1
  exponent? := some e
  isPlainDigit_whole c hc := isPlainDigit_of_mem_toDigits (List.mem_of_mem_take hc)
  isPlainDigit_fraction c hc := isPlainDigit_of_mem_toDigits (List.mem_of_mem_drop hc)
  whole_ne_nil := by simp [Nat.toDigits_ne_nil]
  zero_alone hzero := by
    obtain ⟨c, cs, hcs⟩ := List.exists_cons_of_ne_nil (Nat.toDigits_ne_nil (n := m) (b := 10))
    rw [hcs] at hzero ⊢
    simpa using hzero

/-- The form with an exponent keeps the digits, with the point behind the first. -/
theorem decimal_scientific (m : Nat) (e : Int) :
    (scientific m e).decimal = ⟨m, e + 1 - (Nat.toDigits 10 m).length⟩ := by
  have hpos : 0 < (Nat.toDigits 10 m).length := Nat.length_toDigits_pos
  simp only [decimal, scientific, ofDigits, List.take_append_drop, Nat.ofDigitChars_ten_toDigits,
    List.length_drop, Option.getD_some, Decimal.mk.injEq, true_and]
  omega

/-- The digits of the form with an exponent are the first one and a fraction. -/
theorem mantissa_toDigits (m : Nat) : Layout.mantissa (Nat.toDigits 10 m) =
    (Nat.toDigits 10 m).take 1 ++ pointPart ((Nat.toDigits 10 m).drop 1) := by
  obtain ⟨c, cs, hcs⟩ := List.exists_cons_of_ne_nil (Nat.toDigits_ne_nil (n := m) (b := 10))
  rw [hcs]
  cases cs <;> rfl

end Parts

/-! ## numbers -/

/-- A finite double is written as its sign and its shortest number. -/
theorem Layout.write_finite {x : Float} (h : Binary64.isFinite x = true) : l.write x =
    withSign (Binary64.isNegative x) (l.writeDecimal (shortest (Binary64.pattern x))) := by
  have hn : Binary64.pattern x < Binary64.infinity := of_decide_eq_true h
  rw [write, if_neg (Nat.lt_asymm hn), writeMagnitude, if_pos hn]

/-- Whether a layout writes a number other than zero without an exponent. -/
def Layout.IsPositional (l : Layout) (d : Decimal) : Prop :=
  l.positionalFrom < d.leading ∧ d.leading ≤ l.positionalBefore

/-- Every layout writes a number as parts with its value, and they have an exponent exactly outside
the positional range. -/
theorem Layout.exists_parts (l : Layout) (d : Decimal) : ∃ p : Parts,
    l.writeDecimal d = p.text l ∧ p.decimal.value = d.value ∧
      (p.fraction ≠ [] ∨ p.exponent? ≠ none) ∧
      (d.digits ≠ 0 → (p.exponent? = none ↔ l.IsPositional d)) := by
  obtain ⟨m, e⟩ := d
  obtain ⟨point, hpoint⟩ : ∃ point : Int,
      point = if m = 0 then 1 else (Nat.toDigits 10 m).length + e := ⟨_, rfl⟩
  have hzero : m = 0 → point = 1 := by
    intro hm
    rw [hpoint, if_pos hm]
  have hvalue : value ⟨m, point - (Nat.toDigits 10 m).length⟩ = value ⟨m, e⟩ := by
    by_cases hm : m = 0
    · simp [value, hm]
    · rw [hpoint, if_neg hm, add_sub_cancel_left]
  have hleading : m ≠ 0 → (l.IsPositional ⟨m, e⟩ ↔
      l.positionalFrom < point ∧ point ≤ l.positionalBefore) := by
    intro hm
    rw [hpoint, if_neg hm]
    rfl
  simp only [writeDecimal, ← hpoint]
  split
  · next hform =>
    obtain ⟨p, hnone, hfraction, htext, hp⟩ := Parts.exists_positional l hzero
    refine ⟨p, htext, hp.trans hvalue, .inl hfraction, fun hm => ?_⟩
    simpa [hnone, hleading hm] using hform
  · next hform =>
    refine ⟨.scientific m (point - 1), ?_, ?_, .inr (by simp [Parts.scientific]), fun hm => ?_⟩
    · rw [Parts.mantissa_toDigits]
      rfl
    · rw [Parts.decimal_scientific, ← hvalue, sub_add_cancel]
    · simpa [Parts.scientific, hleading hm] using hform

end LineCalc.Decimal
