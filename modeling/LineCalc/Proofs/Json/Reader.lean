import LineCalc.Proofs.Decimal.Numeral
import LineCalc.Proofs.Json.Grammar

/-!
# LineCalc.Proofs.Json.Reader

What the grammar spells, the reader reads.  Each part of the reader is shown
to take from a text exactly what the grammar gives it and to leave the rest:
numbers (`readNumber?_spelled`), texts (`readText?_spelled`) and, by induction
on the grammar, values (`readsBack_of_spells`).  A number ends where the text
goes on with anything that could not be part of it (`Ends`).  So a document
stands for one value at most, the one that is read: `IsDocument.read?_eq`.
-/

namespace LineCalc.Json

open Text Decimal

variable {cs ds rest : List Char} {c : Char}

/-! ## gaps -/

theorem skipGap_append (h : IsGap cs) (rest : List Char) : skipGap (cs ++ rest) = skipGap rest :=
  List.dropWhile_append_of_pos h

theorem skipGap_of_not (h : isGap c = false) (cs : List Char) : skipGap (c :: cs) = c :: cs := by
  simp [skipGap, h]

theorem skipGap_append_cons {gap : List Char} (hg : IsGap gap) (hc : isGap c = false)
    (rest : List Char) : skipGap (gap ++ c :: rest) = c :: rest := by
  rw [skipGap_append hg, skipGap_of_not hc]

/-! ## numbers -/

/-- What comes after a number: the end, or a character that is no part of one. -/
def Ends (rest : List Char) : Prop :=
  ∀ c, rest.head? = some c → isPlainDigit c = false ∧ c ≠ '.' ∧ c ≠ 'e' ∧ c ≠ 'E'

theorem spanDigits_append (hd : ∀ d ∈ ds, isPlainDigit d = true)
    (hr : ∀ c, rest.head? = some c → isPlainDigit c = false) :
    spanDigits (ds ++ rest) = (ds, rest) := by
  rw [spanDigits, List.span_eq_takeWhile_dropWhile, takeWhile_append_eq hd hr,
    dropWhile_append_eq hd hr]

/-- The digits before the point are read up to where they end. -/
theorem wholePart?_spelled (h : IsWhole ds)
    (hr : ∀ c, rest.head? = some c → isPlainDigit c = false) :
    wholePart? (ds ++ rest) = some (ds, rest) := by
  obtain ⟨⟨hne, hd⟩, hzero⟩ := h
  rw [wholePart?, spanDigits_append hd hr]
  split
  · next he => exact absurd (congrArg Prod.fst he) hne
  · next he =>
    obtain rfl := (Prod.mk.inj he).1
    simp at hzero
  · rfl

/-- A fraction is read up to where its digits end. -/
theorem fractionPart?_spelled {fs fraction : List Char} (h : Fraction fs fraction)
    (hr : ∀ c, rest.head? = some c → isPlainDigit c = false ∧ c ≠ '.') :
    fractionPart? (fs ++ rest) = some (fraction, rest) := by
  cases h with
  | absent =>
      rw [List.nil_append]
      unfold fractionPart?
      split
      · exact absurd rfl (hr '.' rfl).2
      · rfl
  | @point ds hds =>
      rw [List.cons_append, fractionPart?, spanDigits_append hds.2 fun c hc => (hr c hc).1]
      split
      · next he => exact absurd (congrArg Prod.fst he) hds.1
      · rfl

theorem splitSign_spelled {sign : List Char} {negative : Bool} (h : ExponentSign sign negative)
    (hd : IsDigits ds) : splitSign (sign ++ (ds ++ rest)) = (negative, ds ++ rest) := by
  cases h with
  | absent =>
      obtain ⟨d, ds, rfl⟩ := List.exists_cons_of_ne_nil hd.1
      exact splitSign_eq_self (hd.2 d List.mem_cons_self)
  | plus | minus => rfl

/-- An exponent is read up to where its digits end. -/
theorem exponentPart?_spelled {es : List Char} {e : Option Int} (h : Exponent es e)
    (hr : Ends rest) : exponentPart? (es ++ rest) = some (e, rest) := by
  cases h with
  | absent =>
      rw [List.nil_append]
      unfold exponentPart?
      split
      · rfl
      · next c cs =>
        have hc := hr c rfl
        rw [if_neg (by simp [hc])]
  | @mark mark sign ds negative hmark hsign hds =>
      rw [List.cons_append, List.append_assoc, exponentPart?, if_pos (by simpa using hmark),
        splitSign_spelled hsign hds]
      simp only [spanDigits_append hds.2 fun c hc => (hr c hc).1]
      split
      · next he => exact absurd (congrArg Prod.fst he) hds.1
      · next he =>
        obtain ⟨rfl, rfl⟩ := Prod.mk.inj he
        rfl

theorem Exponent.head?_append {es : List Char} {e : Option Int} (h : Exponent es e)
    (hr : Ends rest) : ∀ c, (es ++ rest).head? = some c → isPlainDigit c = false ∧ c ≠ '.' := by
  intro c hc
  cases h with
  | absent => exact ⟨(hr c hc).1, (hr c hc).2.1⟩
  | mark hmark _ _ =>
      cases hc
      obtain rfl | rfl := hmark <;> decide

theorem Fraction.head?_append {fs fraction : List Char} (h : Fraction fs fraction)
    (hr : ∀ c, rest.head? = some c → isPlainDigit c = false) :
    ∀ c, (fs ++ rest).head? = some c → isPlainDigit c = false := by
  intro c hc
  cases h with
  | absent => exact hr c hc
  | point _ =>
      cases hc
      decide

/-- A number without fraction and exponent is read as an integer. -/
theorem readMagnitude?_whole (h : IsWhole ds) (hr : Ends rest) (negative : Bool) :
    readMagnitude? negative (ds ++ rest) =
      some (int (signed negative (Nat.ofDigitChars 10 ds 0)), rest) := by
  have hwhole := wholePart?_spelled h fun c hc => (hr c hc).1
  have hfraction : fractionPart? ([] ++ rest) = some ([], rest) :=
    fractionPart?_spelled .absent fun c hc => ⟨(hr c hc).1, (hr c hc).2.1⟩
  have hexponent := exponentPart?_spelled .absent hr
  rw [List.nil_append] at hfraction hexponent
  simp [readMagnitude?, hwhole, hfraction, hexponent, signed]

/-- A number with a fraction or an exponent is read as the double nearest to it. -/
theorem readMagnitude?_real {fs fraction es : List Char} {e : Option Int} (h : IsWhole ds)
    (hf : Fraction fs fraction) (he : Exponent es e) (hreal : fraction ≠ [] ∨ e ≠ none)
    (hr : Ends rest) (negative : Bool) :
    readMagnitude? negative (ds ++ fs ++ es ++ rest) =
      some (real ((ofDigits ds fraction (e.getD 0)).toDouble negative), rest) := by
  have hhead := he.head?_append hr
  have hwhole := wholePart?_spelled h (hf.head?_append fun c hc => (hhead c hc).1)
  have hfraction := fractionPart?_spelled hf hhead
  have hexponent := exponentPart?_spelled he hr
  rw [List.append_assoc, List.append_assoc]
  simp only [readMagnitude?, hwhole, hfraction, hexponent, Option.bind_eq_bind, Option.bind_some]
  split
  · simp at hreal
  · rfl

/-- What a number begins with. -/
theorem IsWhole.exists_cons (h : IsWhole ds) : ∃ d ds', ds = d :: ds' ∧ isPlainDigit d = true := by
  obtain ⟨d, ds', rfl⟩ := List.exists_cons_of_ne_nil h.1.1
  exact ⟨d, ds', rfl, h.1.2 d List.mem_cons_self⟩

theorem readNumber?_withSign (negative : Bool) (h : IsWhole ds) (tail : List Char) :
    readNumber? (Layout.withSign negative (ds ++ tail)) = readMagnitude? negative (ds ++ tail) := by
  cases negative with
  | true => rfl
  | false =>
      obtain ⟨d, ds', rfl, hd⟩ := h.exists_cons
      unfold readNumber?
      split
      · next he =>
        cases he
        simp [isPlainDigit] at hd
      · rfl

/-! ## texts -/

theorem unit?_escape {a b c d : Char} {u : Nat} (h : hexUnit? a b c d = some u) (cs : List Char) :
    unit? ('\\' :: 'u' :: a :: b :: c :: d :: cs) = some (u, cs) := by
  simp [unit?, h]

theorem unit?_letter (h : c ≠ 'u') (cs : List Char) :
    unit? ('\\' :: c :: cs) = (letterValue? c).map (·, cs) := by
  unfold unit?
  split
  · next he =>
    cases he
    exact absurd rfl h
  · next he =>
    cases he
    rfl
  · next he => simp at he
  · next hletter _ he =>
    cases he
    exact (hletter _ _ rfl rfl).elim
  · next he => simp at he

theorem unit?_plain (h : ' ' ≤ c) (hc : c ≠ '\\') (cs : List Char) :
    unit? (c :: cs) = some (c.toNat, cs) := by
  unfold unit?
  split
  · next he =>
    cases he
    exact absurd rfl hc
  · next he =>
    cases he
    exact absurd rfl hc
  · next he =>
    cases he
    exact absurd rfl hc
  · next he =>
    cases he
    rw [if_neg (by simpa using h)]
  · next he => simp at he

theorem units?_of_unit? {u fuel : Nat} {read : List Nat} {more : List Char} (h : c ≠ doubleMark)
    (hu : unit? (c :: cs) = some (u, more)) :
    units? (fuel + 1) read (c :: cs) = units? fuel (u :: read) more := by
  rw [units?]
  simp only [if_neg h, hu]

theorem letterValue?_of_mem {p : Char × Char} (h : p ∈ escapeLetters) :
    letterValue? p.1 = some p.2.toNat ∧ p.1 ≠ 'u' := by
  revert p
  decide

/-- No character is a surrogate. -/
theorem toNat_not_surrogate (c : Char) : ¬ IsHighSurrogate c.toNat ∧ ¬ IsLowSurrogate c.toNat := by
  have hvalid : c.toNat < 0xD800 ∨ 0xDFFF < c.toNat ∧ c.toNat < 0x110000 := c.valid
  simp only [IsHighSurrogate, IsLowSurrogate]
  omega

section

variable {u v : Nat} (us : List Nat) (read : List Char)

theorem joinUnits?_unit (hh : ¬ IsHighSurrogate u) (hl : ¬ IsLowSurrogate u) :
    joinUnits? read (u :: us) = joinUnits? (Char.ofNat u :: read) us := by
  simp only [IsHighSurrogate, IsLowSurrogate] at hh hl
  rw [joinUnits?.eq_def]
  simp [hh, hl]

/-- A code unit of a character is joined with no other. -/
theorem joinUnits?_char (c : Char) :
    joinUnits? read (c.toNat :: us) = joinUnits? (c :: read) us := by
  rw [joinUnits?_unit us read (toNat_not_surrogate c).1 (toNat_not_surrogate c).2, Char.ofNat_toNat]

/-- A pair of surrogates is joined into one character. -/
theorem joinUnits?_pair (hu : IsHighSurrogate u) (hv : IsLowSurrogate v) :
    joinUnits? read (u :: v :: us) = joinUnits? (pairValue u v :: read) us := by
  simp [joinUnits?, hu.1, hu.2, hv.1, hv.2, pairValue]

end

/-- A text is read unit by unit up to its closing mark, and the units are its characters. -/
theorem Characters.exists_units {s : List Char} (h : Characters cs s) : ∃ us,
    (∀ fuel read rest, cs.length < fuel →
      units? fuel read (cs ++ doubleMark :: rest) = some (read.reverse ++ us, rest)) ∧
    ∀ read, joinUnits? read us = some (read.reverse ++ s) := by
  induction h with
  | nil =>
      refine ⟨[], fun fuel read rest hf => ?_, fun read => by simp [joinUnits?]⟩
      obtain ⟨fuel, rfl⟩ := Nat.exists_eq_succ_of_ne_zero (Nat.ne_of_gt hf)
      simp [units?]
  | @plain c cs s hspace hmark hslash _ ih =>
      obtain ⟨us, hunits, hjoin⟩ := ih
      refine ⟨c.toNat :: us, fun fuel read rest hf => ?_, fun read => ?_⟩
      · obtain ⟨fuel, rfl⟩ := Nat.exists_eq_succ_of_ne_zero (Nat.ne_zero_of_lt hf)
        rw [List.cons_append, units?_of_unit? hmark (unit?_plain hspace hslash _),
          hunits _ _ _ (by simpa using hf)]
        simp
      · rw [joinUnits?_char, hjoin]
        simp
  | @letter p cs s hp _ ih =>
      obtain ⟨us, hunits, hjoin⟩ := ih
      obtain ⟨hvalue, hu⟩ := letterValue?_of_mem hp
      refine ⟨p.2.toNat :: us, fun fuel read rest hf => ?_, fun read => ?_⟩
      · obtain ⟨fuel, rfl⟩ := Nat.exists_eq_succ_of_ne_zero (Nat.ne_zero_of_lt hf)
        simp only [List.length_cons] at hf
        have hunit : unit? ('\\' :: p.1 :: (cs ++ doubleMark :: rest)) =
            some (p.2.toNat, cs ++ doubleMark :: rest) := by
          rw [unit?_letter hu, hvalue]
          rfl
        rw [List.cons_append, List.cons_append, units?_of_unit? (by decide) hunit,
          hunits _ _ _ (by omega)]
        simp
      · rw [joinUnits?_char, hjoin]
        simp
  | @unit a b c d u cs s hhex hhigh hlow _ ih =>
      obtain ⟨us, hunits, hjoin⟩ := ih
      refine ⟨u :: us, fun fuel read rest hf => ?_, fun read => ?_⟩
      · obtain ⟨fuel, rfl⟩ := Nat.exists_eq_succ_of_ne_zero (Nat.ne_zero_of_lt hf)
        simp only [List.length_cons] at hf
        simp only [List.cons_append]
        rw [units?_of_unit? (by decide) (unit?_escape hhex _), hunits _ _ _ (by omega)]
        simp
      · rw [joinUnits?_unit _ _ hhigh hlow, hjoin]
        simp
  | @pair a b c d a' b' c' d' u v cs s hhex hhex' hu hv _ ih =>
      obtain ⟨us, hunits, hjoin⟩ := ih
      refine ⟨u :: v :: us, fun fuel read rest hf => ?_, fun read => ?_⟩
      · simp only [List.length_cons] at hf
        obtain ⟨fuel, rfl⟩ : ∃ k, fuel = k + 2 := ⟨fuel - 2, by omega⟩
        simp only [List.cons_append]
        rw [units?_of_unit? (by decide) (unit?_escape hhex _),
          units?_of_unit? (by decide) (unit?_escape hhex' _), hunits _ _ _ (by omega)]
        simp
      · rw [joinUnits?_pair _ _ hu hv, hjoin]
        simp

/-- A text is read up to its closing mark. -/
theorem readText?_spelled {s : List Char} (h : Characters cs s) (fuel : Nat)
    (hf : cs.length < fuel) (rest : List Char) :
    readText? fuel (cs ++ doubleMark :: rest) = some (String.ofList s, rest) := by
  obtain ⟨us, hunits, hjoin⟩ := h.exists_units
  simp [readText?, hunits _ _ _ hf, hjoin]

/-! ## values -/

theorem withSign_append (negative : Bool) (cs rest : List Char) :
    Layout.withSign negative cs ++ rest = Layout.withSign negative (cs ++ rest) := by
  cases negative <;> rfl

/-- What the parts of a document may begin with: no gap, and no closing bracket or brace. -/
def IsHead (c : Char) : Prop := isGap c = false ∧ c ≠ ']' ∧ c ≠ '\x7d'

instance : DecidablePred IsHead := fun _ => instDecidableAnd

/-- What a number begins with. -/
def isNumberHead (c : Char) : Bool := c = '-' || isPlainDigit c

theorem not_numberHead (h : isNumberHead c = true) :
    IsHead c ∧ c ≠ '[' ∧ c ≠ '\x7b' ∧ c ≠ doubleMark := by
  simp only [isNumberHead, Bool.or_eq_true, decide_eq_true_eq] at h
  obtain rfl | h := h
  · decide
  · obtain ⟨d, hd, rfl⟩ := exists_digitChar h
    revert d
    decide

theorem IsWhole.exists_head (h : IsWhole ds) (negative : Bool) (tail : List Char) :
    ∃ c more, Layout.withSign negative (ds ++ tail) = c :: more ∧ isNumberHead c = true := by
  obtain ⟨d, ds', rfl, hd⟩ := h.exists_cons
  cases negative with
  | true => exact ⟨'-', _, rfl, rfl⟩
  | false => exact ⟨d, _, rfl, by simp [isNumberHead, hd]⟩

/-- Every part of a document begins with what can stand at its front. -/
theorem Spells.exists_head {piece : Piece} (h : Spells piece cs) :
    ∃ c more, cs = c :: more ∧ IsHead c := by
  induction h with
  | null | yes | no => exact ⟨_, _, rfl, by decide⟩
  | @whole ds negative hds =>
      obtain ⟨c, more, hcs, hc⟩ := hds.exists_head negative []
      exact ⟨c, more, by rwa [List.append_nil] at hcs, (not_numberHead hc).1⟩
  | real negative hds _ _ _ =>
      obtain ⟨c, more, hcs, hc⟩ := hds.exists_head negative _
      exact ⟨c, more, by rwa [List.append_assoc], (not_numberHead hc).1⟩
  | text _ => exact ⟨_, _, rfl, by decide⟩
  | noItems _ | list _ _ _ | noFields _ | object _ _ _ =>
      exact ⟨_, _, rfl, by decide⟩
  | lastItem _ _ ih =>
      obtain ⟨c, more, rfl, hc⟩ := ih
      exact ⟨c, _, rfl, hc⟩
  | item _ _ _ _ ih _ =>
      obtain ⟨c, more, rfl, hc⟩ := ih
      exact ⟨c, _, rfl, hc⟩
  | lastField _ _ _ _ _ _ | field _ _ _ _ _ _ _ _ _ =>
      exact ⟨_, _, rfl, by decide⟩

/-- A gap in front of a value is passed over. -/
theorem readValue?_gap {gap : List Char} (h : IsGap gap) (fuel : Nat) (cs : List Char) :
    readValue? fuel (gap ++ cs) = readValue? fuel cs := by
  cases fuel with
  | zero => simp [readValue?]
  | succ fuel => rw [readValue?, readValue?, skipGap_append h]

theorem readItems?_gap {gap : List Char} (h : IsGap gap) (fuel : Nat) (read : List Json)
    (cs : List Char) : readItems? fuel read (gap ++ cs) = readItems? fuel read cs := by
  cases fuel with
  | zero => simp [readItems?]
  | succ fuel => rw [readItems?, readItems?, readValue?_gap h]

theorem readFields?_gap {gap : List Char} (h : IsGap gap) (fuel : Nat)
    (read : List (String × Json)) (cs : List Char) :
    readFields? fuel read (gap ++ cs) = readFields? fuel read cs := by
  cases fuel with
  | zero => simp [readFields?]
  | succ fuel => rw [readFields?, readFields?, skipGap_append h]

/-- A part of a document is read back whatever follows it, with twice its length as the bound. -/
def ReadsBack : Piece → List Char → Prop
  | .value v, cs => ∀ fuel rest, 2 * cs.length ≤ fuel → Ends rest →
      readValue? fuel (cs ++ rest) = some (v, rest)
  | .items vs, cs => ∀ fuel read rest, 2 * cs.length < fuel →
      readItems? fuel read (cs ++ ']' :: rest) = some (list (read.reverse ++ vs), rest)
  | .fields fs, cs => ∀ fuel read rest, 2 * cs.length < fuel →
      readFields? fuel read (cs ++ '\x7d' :: rest) = some (object (read.reverse ++ fs), rest)

theorem ends_cons (hd : isPlainDigit c = false ∧ c ≠ '.' ∧ c ≠ 'e' ∧ c ≠ 'E') (cs : List Char) :
    Ends (c :: cs) := by
  intro c' hc
  cases hc
  exact hd

/-- A number ends before a gap. -/
theorem ends_gap {gap : List Char} (hg : IsGap gap) (hr : Ends rest) : Ends (gap ++ rest) := by
  cases gap with
  | nil => exact hr
  | cons c gap =>
      have hc : isGap c = true := hg c List.mem_cons_self
      simp only [isGap, Bool.or_eq_true, decide_eq_true_eq] at hc
      obtain ((rfl | rfl) | rfl) | rfl := hc <;> exact ends_cons (by decide) _

theorem readsBack_word {v : Json} {c : Char} {tail : List Char}
    (h : ∀ rest, readWord? (c :: (tail ++ rest)) = some (v, rest))
    (hc : isGap c = false ∧ c ≠ '[' ∧ c ≠ '\x7b' ∧ c ≠ doubleMark ∧ c ≠ '-' ∧
      isPlainDigit c = false) : ReadsBack (.value v) (c :: tail) := by
  intro fuel rest hf _
  obtain ⟨fuel, rfl⟩ := Nat.exists_eq_succ_of_ne_zero (n := fuel) (by simp at hf; omega)
  rw [List.cons_append, readValue?, skipGap_of_not hc.1]
  simpa [hc] using h rest

/-- A number is read back if its magnitude is. -/
theorem readsBack_number {v : Json} (negative : Bool) (tail : List Char) (hds : IsWhole ds)
    (h : ∀ rest, Ends rest → readMagnitude? negative (ds ++ tail ++ rest) = some (v, rest)) :
    ReadsBack (.value v) (Layout.withSign negative (ds ++ tail)) := by
  intro fuel rest hf hr
  have hread := h rest hr
  rw [List.append_assoc, ← readNumber?_withSign negative hds, ← List.append_assoc,
    ← withSign_append] at hread
  obtain ⟨c, more, hcs, hc⟩ := hds.exists_head negative tail
  rw [hcs] at hf hread ⊢
  obtain ⟨fuel, rfl⟩ := Nat.exists_eq_succ_of_ne_zero (n := fuel) (by simp at hf; omega)
  have hnot := not_numberHead hc
  have hnumber : c = '-' ∨ isPlainDigit c = true := by simpa [isNumberHead] using hc
  rw [List.cons_append, readValue?, skipGap_of_not hnot.1.1]
  simpa [hnot, hnumber] using hread

/-- A text is read back. -/
theorem readsBack_text {s : List Char} (h : Characters cs s) :
    ReadsBack (.value (.text (String.ofList s))) (doubleMark :: (cs ++ [doubleMark])) := by
  intro fuel rest hf _
  simp only [List.length_cons, List.length_append] at hf
  obtain ⟨fuel, rfl⟩ := Nat.exists_eq_succ_of_ne_zero (n := fuel) (by omega)
  have htext := readText?_spelled h fuel (by omega) rest
  have hsplit : cs ++ [doubleMark] ++ rest = cs ++ doubleMark :: rest := by simp
  rw [List.cons_append, readValue?, skipGap_of_not (by decide), hsplit]
  simp [htext, show doubleMark ≠ '[' by decide, show doubleMark ≠ '\x7b' by decide]

theorem readValue?_list (fuel : Nat) (cs : List Char) : readValue? (fuel + 1) ('[' :: cs) =
    match skipGap cs with
    | ']' :: rest => some (list [], rest)
    | rest => readItems? fuel [] rest := by
  rw [readValue?, skipGap_of_not (by decide)]
  rfl

theorem readValue?_object (fuel : Nat) (cs : List Char) : readValue? (fuel + 1) ('\x7b' :: cs) =
    match skipGap cs with
    | '\x7d' :: rest => some (object [], rest)
    | rest => readFields? fuel [] rest := by
  rw [readValue?, skipGap_of_not (by decide)]
  rfl

section

variable {gap gap₁ gap₂ gap₃ gap₄ more name text : List Char} {v : Json} {vs : List Json}
  {fs : List (String × Json)}

/-- What begins like an item is read as the first of the items. -/
theorem readValue?_list_of_head (hg : IsGap gap) (hc : IsHead c) (fuel : Nat) (cs : List Char) :
    readValue? (fuel + 1) ('[' :: (gap ++ c :: cs)) = readItems? fuel [] (c :: cs) := by
  rw [readValue?_list, skipGap_append_cons hg hc.1]
  split
  · next he =>
    cases he
    exact absurd rfl hc.2.1
  · rfl

theorem readValue?_object_of_head (hg : IsGap gap) (hc : IsHead c) (fuel : Nat)
    (cs : List Char) :
    readValue? (fuel + 1) ('\x7b' :: (gap ++ c :: cs)) = readFields? fuel [] (c :: cs) := by
  rw [readValue?_object, skipGap_append_cons hg hc.1]
  split
  · next he =>
    cases he
    exact absurd rfl hc.2.2
  · rfl

theorem readsBack_noItems (hg : IsGap gap) :
    ReadsBack (.value (.list [])) ('[' :: (gap ++ [']'])) := by
  intro fuel rest hf _
  obtain ⟨fuel, rfl⟩ := Nat.exists_eq_succ_of_ne_zero (n := fuel) (by simp at hf; omega)
  have hskip := skipGap_append_cons hg (c := ']') (by decide) rest
  simp [readValue?_list, hskip]

/-- A list is read back if its items are. -/
theorem readsBack_list (hg : IsGap gap) (hitems : Spells (.items vs) cs)
    (ih : ReadsBack (.items vs) cs) :
    ReadsBack (.value (.list vs)) ('[' :: (gap ++ cs ++ [']'])) := by
  intro fuel rest hf _
  simp only [List.length_cons, List.length_append] at hf
  obtain ⟨fuel, rfl⟩ := Nat.exists_eq_succ_of_ne_zero (n := fuel) (by omega)
  have hread := ih fuel [] rest (by omega)
  obtain ⟨c, more, rfl, hc⟩ := hitems.exists_head
  have hsplit : '[' :: (gap ++ c :: more ++ [']']) ++ rest =
      '[' :: (gap ++ c :: (more ++ ']' :: rest)) := by simp
  rw [hsplit, readValue?_list_of_head hg hc]
  exact hread

theorem readsBack_noFields (hg : IsGap gap) :
    ReadsBack (.value (.object [])) ('\x7b' :: (gap ++ ['\x7d'])) := by
  intro fuel rest hf _
  obtain ⟨fuel, rfl⟩ := Nat.exists_eq_succ_of_ne_zero (n := fuel) (by simp at hf; omega)
  have hskip := skipGap_append_cons hg (c := '\x7d') (by decide) rest
  simp [readValue?_object, hskip]

theorem readsBack_object (hg : IsGap gap) (hfields : Spells (.fields fs) cs)
    (ih : ReadsBack (.fields fs) cs) :
    ReadsBack (.value (.object fs)) ('\x7b' :: (gap ++ cs ++ ['\x7d'])) := by
  intro fuel rest hf _
  simp only [List.length_cons, List.length_append] at hf
  obtain ⟨fuel, rfl⟩ := Nat.exists_eq_succ_of_ne_zero (n := fuel) (by omega)
  have hread := ih fuel [] rest (by omega)
  obtain ⟨c, more, rfl, hc⟩ := hfields.exists_head
  have hsplit : '\x7b' :: (gap ++ c :: more ++ ['\x7d']) ++ rest =
      '\x7b' :: (gap ++ c :: (more ++ '\x7d' :: rest)) := by simp
  rw [hsplit, readValue?_object_of_head hg hc]
  exact hread

theorem readsBack_lastItem (hg : IsGap gap) (ih : ReadsBack (.value v) cs) :
    ReadsBack (.items [v]) (cs ++ gap) := by
  intro fuel read rest hf
  simp only [List.length_append] at hf
  obtain ⟨fuel, rfl⟩ := Nat.exists_eq_succ_of_ne_zero (n := fuel) (by omega)
  have hread := ih fuel (gap ++ ']' :: rest) (by omega) (ends_gap hg (ends_cons (by decide) _))
  have hskip := skipGap_append_cons hg (c := ']') (by decide) rest
  simp [readItems?, hread, hskip]

/-- Items are read back if the first one and those behind it are. -/
theorem readsBack_item (hg₁ : IsGap gap₁) (hg₂ : IsGap gap₂) (ih : ReadsBack (.value v) cs)
    (ihmore : ReadsBack (.items vs) more) :
    ReadsBack (.items (v :: vs)) (cs ++ gap₁ ++ ',' :: (gap₂ ++ more)) := by
  intro fuel read rest hf
  simp only [List.length_append, List.length_cons] at hf
  obtain ⟨fuel, rfl⟩ := Nat.exists_eq_succ_of_ne_zero (n := fuel) (by omega)
  have hread := ih fuel (gap₁ ++ ',' :: (gap₂ ++ (more ++ ']' :: rest))) (by omega)
    (ends_gap hg₁ (ends_cons (by decide) _))
  have hskip := skipGap_append_cons hg₁ (c := ',') (by decide) (gap₂ ++ (more ++ ']' :: rest))
  simp [readItems?, hread, hskip, readItems?_gap hg₂, ihmore fuel (v :: read) rest (by omega)]

/-- The fields of an object after one of them and the gap that follows it. -/
def readAfterField? (fuel : Nat) (read : List (String × Json)) :
    List Char → Option (Json × List Char)
  | ',' :: rest => readFields? fuel read rest
  | '\x7d' :: rest => some (object read.reverse, rest)
  | _ => none

/-- The name at the front of the fields. -/
theorem readFields?_name (hname : Characters name text) (hg₁ : IsGap gap₁) (hg₂ : IsGap gap₂)
    (fuel : Nat) (hf : name.length < fuel) (read : List (String × Json)) (cs : List Char) :
    readFields? (fuel + 1) read
        (doubleMark :: (name ++ doubleMark :: (gap₁ ++ ':' :: (gap₂ ++ cs)))) =
      match readValue? fuel cs with
      | none => none
      | some (v, rest) =>
        readAfterField? fuel ((String.ofList text, v) :: read) (skipGap rest) := by
  have htext := readText?_spelled hname fuel hf (gap₁ ++ ':' :: (gap₂ ++ cs))
  have hskip := skipGap_append_cons hg₁ (c := ':') (by decide) (gap₂ ++ cs)
  rw [readFields?, skipGap_of_not (by decide)]
  simp only [↓reduceIte, htext, hskip, readValue?_gap hg₂]
  rfl

/-- The field at the front of the fields. -/
theorem readFields?_field (hname : Characters name text) (hg₁ : IsGap gap₁) (hg₂ : IsGap gap₂)
    (ih : ReadsBack (.value v) cs) (fuel : Nat) (hf : 2 * (name.length + cs.length) < fuel)
    (hr : Ends rest) (read : List (String × Json)) :
    readFields? (fuel + 1) read
        (doubleMark :: (name ++ doubleMark :: (gap₁ ++ ':' :: (gap₂ ++ (cs ++ rest))))) =
      readAfterField? fuel ((String.ofList text, v) :: read) (skipGap rest) := by
  rw [readFields?_name hname hg₁ hg₂ fuel (by omega), ih fuel rest (by omega) hr]

theorem readsBack_lastField (hname : Characters name text) (hg₁ : IsGap gap₁) (hg₂ : IsGap gap₂)
    (hg₃ : IsGap gap₃) (ih : ReadsBack (.value v) cs) :
    ReadsBack (.fields [(String.ofList text, v)])
      (doubleMark :: (name ++ doubleMark :: (gap₁ ++ ':' :: (gap₂ ++ cs ++ gap₃)))) := by
  intro fuel read rest hf
  simp only [List.length_append, List.length_cons] at hf
  obtain ⟨fuel, rfl⟩ := Nat.exists_eq_succ_of_ne_zero (n := fuel) (by omega)
  have hfield := readFields?_field hname hg₁ hg₂ ih fuel (by omega)
    (ends_gap hg₃ (ends_cons (c := '\x7d') (by decide) rest)) read
  have hskip := skipGap_append_cons hg₃ (c := '\x7d') (by decide) rest
  simpa [hskip, readAfterField?] using hfield

/-- Fields are read back if the value of the first one and those behind it are. -/
theorem readsBack_field (hname : Characters name text) (hg₁ : IsGap gap₁) (hg₂ : IsGap gap₂)
    (hg₃ : IsGap gap₃) (hg₄ : IsGap gap₄) (ih : ReadsBack (.value v) cs)
    (ihmore : ReadsBack (.fields fs) more) : ReadsBack (.fields ((String.ofList text, v) :: fs))
      (doubleMark :: (name ++ doubleMark :: (gap₁ ++ ':' :: (gap₂ ++ cs ++ gap₃ ++
        ',' :: (gap₄ ++ more))))) := by
  intro fuel read rest hf
  simp only [List.length_append, List.length_cons] at hf
  obtain ⟨fuel, rfl⟩ := Nat.exists_eq_succ_of_ne_zero (n := fuel) (by omega)
  have hfield := readFields?_field hname hg₁ hg₂ ih fuel (by omega)
    (ends_gap hg₃ (ends_cons (c := ',') (by decide) (gap₄ ++ (more ++ '\x7d' :: rest)))) read
  have hskip := skipGap_append_cons hg₃ (c := ',') (by decide) (gap₄ ++ (more ++ '\x7d' :: rest))
  have hmore := ihmore fuel ((String.ofList text, v) :: read) rest (by omega)
  simpa [hskip, readAfterField?, readFields?_gap hg₄, hmore] using hfield

end

/-- The grammar by induction: whatever spells a part of a document is read as that part. -/
theorem readsBack_of_spells {piece : Piece} (h : Spells piece cs) : ReadsBack piece cs := by
  induction h with
  | null => exact readsBack_word (fun _ => rfl) (by decide)
  | yes => exact readsBack_word (fun _ => rfl) (by decide)
  | no => exact readsBack_word (fun _ => rfl) (by decide)
  | whole negative hds =>
      have hread := readsBack_number negative [] hds fun rest hr => by
        simpa using readMagnitude?_whole hds hr negative
      simpa using hread
  | real negative hds hf he hreal =>
      rw [List.append_assoc]
      apply readsBack_number negative _ hds
      intro rest hr
      rw [← List.append_assoc]
      exact readMagnitude?_real hds hf he hreal hr negative
  | text hs => exact readsBack_text hs
  | noItems hg => exact readsBack_noItems hg
  | list hg hitems ih => exact readsBack_list hg hitems ih
  | noFields hg => exact readsBack_noFields hg
  | object hg hfields ih => exact readsBack_object hg hfields ih
  | lastItem _ hg ih => exact readsBack_lastItem hg ih
  | item _ hg₁ hg₂ _ ih ihmore => exact readsBack_item hg₁ hg₂ ih ihmore
  | lastField hname hg₁ hg₂ _ hg₃ ih => exact readsBack_lastField hname hg₁ hg₂ hg₃ ih
  | field hname hg₁ hg₂ _ hg₃ hg₄ _ ih ihmore =>
      exact readsBack_field hname hg₁ hg₂ hg₃ hg₄ ih ihmore

/-! ## documents -/

/-- A document is read as what it stands for. -/
theorem IsDocument.read?_eq {v : Json} (h : IsDocument cs v) : read? cs = some v := by
  obtain ⟨gap₁, text, gap₂, rfl, hg₁, hg₂, hv⟩ := h
  have hnil : Ends [] := by simp [Ends]
  have hends : Ends gap₂ := by simpa using ends_gap hg₂ hnil
  have hskip : skipGap gap₂ = [] := by simpa [skipGap] using skipGap_append hg₂ []
  have hread := readsBack_of_spells hv (2 * (gap₁ ++ (text ++ gap₂)).length + 1) gap₂
    (by simp only [List.length_append]; omega) hends
  rw [List.append_assoc, read?, readValue?_gap hg₁, hread]
  simp [hskip]

/-- So no document stands for two values. -/
theorem IsDocument.unique {v w : Json} (hv : IsDocument cs v) (hw : IsDocument cs w) : v = w :=
  Option.some.inj (hv.read?_eq.symm.trans hw.read?_eq)

end LineCalc.Json
