import LineCalc.Json.Document
import LineCalc.Proofs.Binary64.Sign
import LineCalc.Proofs.Decimal.Parts
import LineCalc.Proofs.Decimal.Rounding
import LineCalc.Proofs.Json.Reader

/-!
# LineCalc.Proofs.Json.Document

A document spells the value that it is written from, if all doubles in it are
finite (`isDocument_writeAt`), and is ASCII throughout (`isAscii_writeAt`).
The escapes of a character beyond the basic plane spell the two surrogates
that make it up, and the shortest number of a double spells the double, with
the sign of a zero.  With the reader, a document stands for nothing else:
`isDocument_writeAt_iff`.
-/

namespace LineCalc.Json

open Text Decimal Binary64

/-! ## texts -/

section

variable {n u : Nat} {c : Char} {cs s : List Char}

theorem hexValue?_digitChar : ∀ d < 16, hexValue? (Nat.digitChar d) = some d := by decide

/-- The last digit of a number after the others; filling up with zeros changes nothing there. -/
theorem hexDigits_succ {w : Nat} (hw : 0 < w) (n : Nat) :
    hexDigits (w + 1) n = hexDigits w (n / 16) ++ [Nat.digitChar (n % 16)] := by
  by_cases h : n < 16
  · obtain ⟨w, rfl⟩ := Nat.exists_eq_succ_of_ne_zero (Nat.ne_of_gt hw)
    have hzero : n / 16 = 0 := Nat.div_eq_of_lt h
    have hfill : List.replicate w '0' ++ ['0'] = '0' :: List.replicate w '0' := by
      rw [← List.replicate_succ', List.replicate_succ]
    simp [hexDigits, List.leftpad, Nat.toDigits_of_lt_base h, hzero, Nat.mod_eq_of_lt h, hfill,
      List.replicate_succ]
  · rw [hexDigits, hexDigits, Nat.toDigits_of_base_le (by decide) (not_lt.mp h)]
    simp [List.leftpad]

theorem hexDigits_one (h : n < 16) : hexDigits 1 n = [Nat.digitChar n] := by
  simp [hexDigits, List.leftpad, Nat.toDigits_of_lt_base h]

theorem hexDigits_four (h : n < 0x10000) : hexDigits 4 n = [Nat.digitChar (n / 16 / 16 / 16),
    Nat.digitChar (n / 16 / 16 % 16), Nat.digitChar (n / 16 % 16), Nat.digitChar (n % 16)] := by
  have hfirst : n / 16 / 16 / 16 < 16 := by omega
  rw [hexDigits_succ (by decide), hexDigits_succ (by decide), hexDigits_succ (by decide),
    hexDigits_one hfirst]
  rfl

/-- Four hexadecimal digits spell a unit of UTF-16. -/
theorem exists_hexUnit (h : n < 0x10000) :
    ∃ a b c d, hexDigits 4 n = [a, b, c, d] ∧ hexUnit? a b c d = some n := by
  have hmod : ∀ m, hexValue? (Nat.digitChar (m % 16)) = some (m % 16) :=
    fun m => hexValue?_digitChar _ (Nat.mod_lt m (by decide))
  have hfirst : n / 16 / 16 / 16 < 16 := by omega
  refine ⟨_, _, _, _, hexDigits_four h, ?_⟩
  simp only [hexUnit?, hexValue?_digitChar _ hfirst, hmod, Option.bind_eq_bind, Option.bind_some,
    Option.pure_def, Option.some.injEq]
  omega

theorem mem_escapeLetters {letter : Char} (h : controlLetter? c = some letter) :
    (letter, c) ∈ escapeLetters := by
  simp only [controlLetter?] at h
  repeat' split at h
  all_goals simp_all
  all_goals subst h; decide

/-- The escapes of a character's code units spell it. -/
theorem characters_units (c : Char) (h : Characters cs s) :
    Characters ((utf16 c.toNat).flatMap unitEscape ++ cs) (c :: s) := by
  have hvalid : c.toNat < 0xD800 ∨ 0xDFFF < c.toNat ∧ c.toNat < 0x110000 := c.valid
  rw [utf16]
  split
  · next hbasic =>
    obtain ⟨a, b, c', d, hdigits, hunit⟩ := exists_hexUnit hbasic
    have hchars := Characters.unit hunit (toNat_not_surrogate c).1 (toNat_not_surrogate c).2 h
    simpa [unitEscape, hdigits, Char.ofNat_toNat] using hchars
  · next hbeyond =>
    obtain ⟨a, b, c', d, hdigits, hunit⟩ :=
      exists_hexUnit (n := 0xD800 + (c.toNat - 0x10000) / 0x400) (by omega)
    obtain ⟨a', b', c'', d', hdigits', hunit'⟩ :=
      exists_hexUnit (n := 0xDC00 + (c.toNat - 0x10000) % 0x400) (by omega)
    have hvalue : pairValue (0xD800 + (c.toNat - 0x10000) / 0x400)
        (0xDC00 + (c.toNat - 0x10000) % 0x400) = c := by
      have hsum : 0x10000 + (0xD800 + (c.toNat - 0x10000) / 0x400 - 0xD800) * 0x400 +
          (0xDC00 + (c.toNat - 0x10000) % 0x400 - 0xDC00) = c.toNat := by omega
      rw [pairValue, hsum, Char.ofNat_toNat]
    have hchars := Characters.pair hunit hunit' (by simp only [IsHighSurrogate]; omega)
      (by simp only [IsLowSurrogate]; omega) h
    simpa [unitEscape, hdigits, hdigits', hvalue] using hchars

/-- What a character is written as spells it. -/
theorem characters_escapeChar (c : Char) (h : Characters cs s) :
    Characters (escapeChar c ++ cs) (c :: s) := by
  rw [escapeChar]
  split
  · next hmark =>
    have hp : (c, c) ∈ escapeLetters := by
      obtain rfl | rfl : c = doubleMark ∨ c = '\\' := by simpa using hmark
      · decide
      · decide
    exact .letter hp h
  · next hmark =>
    have hne : c ≠ doubleMark ∧ c ≠ '\\' := by simpa using hmark
    split
    · next hplain =>
      have hspace : ' ' ≤ c := by simpa using (Bool.and_eq_true ..).mp hplain |>.1
      exact .plain hspace hne.1 hne.2 h
    · split
      · next hletter => exact .letter (mem_escapeLetters hletter) h
      · exact characters_units c h

theorem characters_flatMap (s : List Char) : Characters (s.flatMap escapeChar) s := by
  induction s with
  | nil => exact .nil
  | cons c s ih => exact characters_escapeChar c ih

end

/-! ## numbers -/

/-- The fraction of a written number is one of the grammar. -/
theorem fraction_pointPart (p : Parts) : Fraction (Parts.pointPart p.fraction) p.fraction := by
  by_cases h : p.fraction = []
  · rw [h]
    exact .absent
  · rw [Parts.pointPart_eq h]
    exact .point ⟨h, p.isPlainDigit_fraction⟩

/-- The exponent of a written number is one of the grammar. -/
theorem exponent_exponentText (width : Nat) (e : Int) :
    Exponent (Layout.exponentText width e) (some e) := by
  have hdigits : IsDigits ((Nat.toDigits 10 e.natAbs).leftpad width '0') := by
    refine ⟨by simp [List.leftpad], fun c hc => ?_⟩
    obtain hc | hc := List.mem_append.mp hc
    · exact isPlainDigit_of_mem_zeros hc
    · exact isPlainDigit_of_mem_toDigits hc
  have hvalue :
      Nat.ofDigitChars 10 ((Nat.toDigits 10 e.natAbs).leftpad width '0') 0 = e.natAbs := by
    rw [List.leftpad, Nat.ofDigitChars_append, Nat.ofDigitChars_replicate_zero, Nat.mul_zero,
      Nat.ofDigitChars_ten_toDigits]
  rw [Layout.exponentText]
  split
  · next h =>
    have hmark := Exponent.mark (.inl (rfl : 'e' = 'e')) .minus hdigits
    have hsigned : signed true e.natAbs = e := by
      rw [signed, if_pos rfl]
      omega
    rwa [hvalue, hsigned] at hmark
  · next h =>
    have hmark := Exponent.mark (.inl (rfl : 'e' = 'e')) .plus hdigits
    have hsigned : signed false e.natAbs = e := by
      rw [signed, if_neg Bool.false_ne_true]
      omega
    rwa [hvalue, hsigned] at hmark

/-- The digits before the point of a written number are those of the grammar. -/
theorem isWhole_whole (p : Parts) : IsWhole p.whole :=
  ⟨⟨p.whole_ne_nil, p.isPlainDigit_whole⟩, p.zero_alone⟩

/-- The parts of a number, with its sign, spell the double nearest to it. -/
theorem spells_parts {l : Layout} {p : Parts} (h : p.fraction ≠ [] ∨ p.exponent? ≠ none)
    (negative : Bool) :
    Spells (.value (.real (p.decimal.toDouble negative)))
      (Layout.withSign negative (p.text l)) := by
  have hexponent : Exponent (Parts.exponentPart l p.exponent?) p.exponent? := by
    cases p.exponent? with
    | none => exact .absent
    | some e => exact exponent_exponentText _ e
  exact .real negative (isWhole_whole p) (fraction_pointPart p) hexponent h

/-- A document has a finite double as a number that spells the double, with the sign of a zero. -/
theorem spells_real {x : Float} (h : isFinite x = true) :
    Spells (.value (.real x)) (Layout.document.write x) := by
  have hn : pattern x < infinity := of_decide_eq_true h
  obtain ⟨p, htext, hvalue, hreal, -⟩ := Layout.document.exists_parts (shortest (pattern x))
  have hdouble : p.decimal.toDouble (isNegative x) = x := by
    rw [toDouble, nearest_congr hvalue, nearest_shortest hn, ofPattern_pattern]
  have hspells := spells_parts (l := .document) hreal (isNegative x)
  rwa [hdouble, ← htext, ← Layout.write_finite h] at hspells

/-- What an integer is written as spells it. -/
theorem spells_writeInt (n : Int) : Spells (.value (.int n)) (writeInt n) := by
  have hwhole : IsWhole (Nat.toDigits 10 n.natAbs) := isWhole_whole (.integer n.natAbs)
  have hspells := Spells.whole (n < 0) hwhole
  have hvalue : signed (n < 0) (Nat.ofDigitChars 10 (Nat.toDigits 10 n.natAbs) 0) = n := by
    rw [Nat.ofDigitChars_ten_toDigits]
    by_cases hn : n < 0
    · rw [decide_eq_true hn, signed, if_pos rfl]
      omega
    · rw [decide_eq_false hn, signed, if_neg Bool.false_ne_true]
      omega
  rwa [hvalue] at hspells

/-! ## values -/

theorem isGap_nil : IsGap [] := by simp [IsGap]

theorem isGap_space : IsGap [' '] := by simp [IsGap, isGap]

theorem isGap_newLine (depth : Nat) : IsGap (newLine depth) := by
  intro c hc
  obtain rfl | hc := List.mem_cons.mp hc
  · rfl
  · obtain rfl := List.eq_of_mem_replicate hc
    rfl

mutual

/-- Whether all doubles in a value are finite. -/
def allFinite : Json → Bool
  | real x => isFinite x
  | list vs => itemsFinite vs
  | object fs => fieldsFinite fs
  | _ => true

/-- Whether all numbers in the items of a list are finite. -/
def itemsFinite : List Json → Bool
  | [] => true
  | v :: vs => allFinite v && itemsFinite vs

/-- Whether all numbers in the fields of an object are finite. -/
def fieldsFinite : List (String × Json) → Bool
  | [] => true
  | (_, v) :: fs => allFinite v && fieldsFinite fs

end

mutual

/-- What is written for a value spells it. -/
theorem spells_writeAt (depth : Nat) :
    (v : Json) → allFinite v = true → Spells (.value v) (writeAt depth v)
  | null, _ => by
      rw [writeAt]
      exact .null
  | bool true, _ => by
      rw [writeAt]
      exact .yes
  | bool false, _ => by
      rw [writeAt]
      exact .no
  | int n, _ => by
      rw [writeAt]
      exact spells_writeInt n
  | real x, h => by
      rw [writeAt]
      rw [allFinite] at h
      exact spells_real h
  | text s, _ => by
      rw [writeAt, writeText]
      simpa using Spells.text (characters_flatMap s.toList)
  | list [], _ => by
      rw [writeAt]
      exact .noItems isGap_nil
  | list (v :: vs), h => by
      simp only [allFinite, itemsFinite, Bool.and_eq_true] at h
      have hitems := spells_writeItems (depth + 1) vs (spells_writeAt (depth + 1) v h.1) h.2
        (isGap_newLine depth)
      rw [writeAt]
      simpa using Spells.list (isGap_newLine (depth + 1)) hitems
  | object [], _ => by
      rw [writeAt]
      exact .noFields isGap_nil
  | object ((k, v) :: fs), h => by
      simp only [allFinite, fieldsFinite, Bool.and_eq_true] at h
      have hfields := spells_writeFields (depth + 1) fs k (spells_writeAt (depth + 1) v h.1) h.2
        (isGap_newLine depth)
      rw [writeAt]
      simpa using Spells.object (isGap_newLine (depth + 1)) hfields

/-- An item, the items after it, and the gap before the bracket. -/
theorem spells_writeItems (depth : Nat) {v : Json} {cs gap : List Char} :
    (vs : List Json) → Spells (.value v) cs → itemsFinite vs = true → IsGap gap →
      Spells (.items (v :: vs)) (cs ++ writeItems depth vs ++ gap)
  | [], hv, _, hg => by
      rw [writeItems, List.append_nil]
      exact .lastItem hv hg
  | w :: vs, hv, h, hg => by
      simp only [itemsFinite, Bool.and_eq_true] at h
      have hmore := spells_writeItems depth vs (spells_writeAt depth w h.1) h.2 hg
      rw [writeItems]
      simpa using Spells.item hv isGap_nil (isGap_newLine depth) hmore

/-- A field, the fields after it, and the gap before the brace. -/
theorem spells_writeFields (depth : Nat) {v : Json} {cs gap : List Char} :
    (fs : List (String × Json)) → (k : String) → Spells (.value v) cs → fieldsFinite fs = true →
      IsGap gap → Spells (.fields ((k, v) :: fs))
        (writeText k ++ ':' :: ' ' :: cs ++ writeFields depth fs ++ gap)
  | [], k, hv, _, hg => by
      rw [writeFields, writeText]
      simpa using Spells.lastField (characters_flatMap k.toList) isGap_nil isGap_space hv hg
  | (k', w) :: fs, k, hv, h, hg => by
      simp only [fieldsFinite, Bool.and_eq_true] at h
      have hmore := spells_writeFields depth fs k' (spells_writeAt depth w h.1) h.2 hg
      rw [writeFields]
      simpa [writeText] using Spells.field (characters_flatMap k.toList) isGap_nil isGap_space hv
        isGap_nil (isGap_newLine depth) hmore

end

/-! ## documents -/

/-- A value with finite numbers is written as a document of it. -/
theorem isDocument_writeAt {v : Json} (h : allFinite v = true) (depth : Nat) :
    IsDocument (writeAt depth v) v :=
  ⟨[], writeAt depth v, [], by simp, isGap_nil, isGap_nil, spells_writeAt depth v h⟩

/-- What is written is read as what it was written from, and stands for nothing else. -/
theorem isDocument_writeAt_iff {v w : Json} (h : allFinite v = true) (depth : Nat) :
    IsDocument (writeAt depth v) w ↔ w = v := by
  constructor
  · intro hw
    exact hw.unique (isDocument_writeAt h depth)
  · rintro rfl
    exact isDocument_writeAt h depth

/-! ## ASCII -/

/-- A text of ASCII characters. -/
def IsAscii (cs : List Char) : Prop := ∀ c ∈ cs, c.toNat < 128

section

variable {c : Char} {cs ds : List Char}

@[simp] theorem isAscii_nil : IsAscii [] := by simp [IsAscii]

@[simp] theorem isAscii_cons : IsAscii (c :: cs) ↔ c.toNat < 128 ∧ IsAscii cs := by
  simp [IsAscii]

@[simp] theorem isAscii_append : IsAscii (cs ++ ds) ↔ IsAscii cs ∧ IsAscii ds := by
  simp [IsAscii, or_imp, forall_and]

theorem isAscii_replicate (k : Nat) (h : c.toNat < 128) : IsAscii (List.replicate k c) := by
  intro d hd
  obtain rfl := List.eq_of_mem_replicate hd
  exact h

theorem toNat_digitChar_lt : ∀ d < 16, (Nat.digitChar d).toNat < 128 := by decide

theorem isAscii_plainDigits (h : ∀ d ∈ ds, isPlainDigit d = true) : IsAscii ds := by
  intro d hd
  obtain ⟨k, hk, rfl⟩ := exists_digitChar (h d hd)
  exact toNat_digitChar_lt k (by omega)

theorem isAscii_unitEscape {u : Nat} (h : u < 0x10000) : IsAscii (unitEscape u) := by
  have hmod : ∀ m, (Nat.digitChar (m % 16)).toNat < 128 :=
    fun m => toNat_digitChar_lt _ (Nat.mod_lt m (by decide))
  have hfirst := toNat_digitChar_lt (u / 16 / 16 / 16) (by omega)
  simp [unitEscape, hexDigits_four h, hmod, hfirst]

/-- Every character is written in ASCII. -/
theorem isAscii_escapeChar (c : Char) : IsAscii (escapeChar c) := by
  have hvalid : c.toNat < 0xD800 ∨ 0xDFFF < c.toNat ∧ c.toNat < 0x110000 := c.valid
  rw [escapeChar]
  split
  · next hmark =>
    obtain rfl | rfl : c = doubleMark ∨ c = '\\' := by simpa using hmark
    · simp [doubleMark]
    · simp
  · split
    · next hplain =>
      have hc : c ≤ '~' := by simpa using (Bool.and_eq_true ..).mp hplain |>.2
      have hlast : c.toNat ≤ '~'.toNat := hc
      have htilde : '~'.toNat = 126 := rfl
      simp only [isAscii_cons, isAscii_nil, and_true]
      omega
    · split
      · next letter hletter =>
        have hascii : ∀ p ∈ escapeLetters, p.1.toNat < 128 := by decide
        simpa using hascii _ (mem_escapeLetters hletter)
      · rw [utf16]
        split
        · next hbasic => simpa using isAscii_unitEscape hbasic
        · have hhigh : 0xD800 + (c.toNat - 0x10000) / 0x400 < 0x10000 := by omega
          have hlow : 0xDC00 + (c.toNat - 0x10000) % 0x400 < 0x10000 := by omega
          simpa using ⟨isAscii_unitEscape hhigh, isAscii_unitEscape hlow⟩

theorem isAscii_writeText (s : String) : IsAscii (writeText s) := by
  have hchars : IsAscii (s.toList.flatMap escapeChar) := by
    intro c hc
    obtain ⟨d, -, hd⟩ := List.mem_flatMap.mp hc
    exact isAscii_escapeChar d c hd
  simpa [writeText, doubleMark] using hchars

theorem isAscii_withSign (negative : Bool) (h : IsAscii cs) :
    IsAscii (Layout.withSign negative cs) := by
  cases negative <;> simpa [Layout.withSign] using h

theorem isAscii_exponentText (width : Nat) (e : Int) : IsAscii (Layout.exponentText width e) := by
  have hdigits : IsAscii ((Nat.toDigits 10 e.natAbs).leftpad width '0') := by
    rw [List.leftpad, isAscii_append]
    exact ⟨isAscii_replicate _ (by decide),
      isAscii_plainDigits fun c => isPlainDigit_of_mem_toDigits⟩
  rw [Layout.exponentText, isAscii_cons, isAscii_cons]
  exact ⟨by decide, by split <;> decide, hdigits⟩

theorem isAscii_parts (l : Layout) (p : Parts) : IsAscii (p.text l) := by
  have hfraction : IsAscii (Parts.pointPart p.fraction) := by
    by_cases h : p.fraction = []
    · simp [h, Parts.pointPart]
    · simpa [Parts.pointPart_eq h] using isAscii_plainDigits p.isPlainDigit_fraction
  have hexponent : IsAscii (Parts.exponentPart l p.exponent?) := by
    cases p.exponent? with
    | none => exact isAscii_nil
    | some e => exact isAscii_exponentText _ e
  rw [Parts.text, isAscii_append, isAscii_append]
  exact ⟨⟨isAscii_plainDigits p.isPlainDigit_whole, hfraction⟩, hexponent⟩

theorem isAscii_write (x : Float) : IsAscii (Layout.document.write x) := by
  rw [Layout.write]
  split
  · simp [Layout.document]
  · apply isAscii_withSign
    rw [Layout.writeMagnitude]
    split
    · obtain ⟨p, htext, -⟩ := Layout.document.exists_parts (shortest (pattern x))
      rw [htext]
      exact isAscii_parts _ p
    · simp [Layout.document]

theorem isAscii_newLine (depth : Nat) : IsAscii (newLine depth) := by
  simpa [newLine] using isAscii_replicate (c := ' ') (2 * depth) (by decide)

end

mutual

/-- Every value is written in ASCII, whatever its texts hold. -/
theorem isAscii_writeAt (depth : Nat) : (v : Json) → IsAscii (writeAt depth v)
  | null | bool true | bool false => by simp [writeAt]
  | int n => by
      rw [writeAt, writeInt]
      exact isAscii_withSign _ (isAscii_plainDigits fun c => isPlainDigit_of_mem_toDigits)
  | real x => by
      rw [writeAt]
      exact isAscii_write x
  | text s => by
      rw [writeAt]
      exact isAscii_writeText s
  | list [] => by simp [writeAt]
  | list (v :: vs) => by
      simp [writeAt, isAscii_newLine, isAscii_writeAt (depth + 1) v, isAscii_writeItems]
  | object [] => by simp [writeAt]
  | object ((k, v) :: fs) => by
      simp [writeAt, isAscii_newLine, isAscii_writeText, isAscii_writeAt (depth + 1) v,
        isAscii_writeFields]

theorem isAscii_writeItems (depth : Nat) : (vs : List Json) → IsAscii (writeItems depth vs)
  | [] => by simp [writeItems]
  | v :: vs => by
      simp [writeItems, isAscii_newLine, isAscii_writeAt depth v, isAscii_writeItems depth vs]

theorem isAscii_writeFields (depth : Nat) :
    (fs : List (String × Json)) → IsAscii (writeFields depth fs)
  | [] => by simp [writeFields]
  | (k, v) :: fs => by
      simp [writeFields, isAscii_newLine, isAscii_writeText, isAscii_writeAt depth v,
        isAscii_writeFields depth fs]

end

end LineCalc.Json
