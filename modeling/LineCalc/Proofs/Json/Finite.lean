import LineCalc.Proofs.Json.Document

/-!
# LineCalc.Proofs.Json.Finite

Values that have no document.  The word for a double that is not finite is no
part of the grammar, so the reader stops at the first of them
(`readValue?_writeAt_eq_none`), wherever it stands in the value.  What is
written for a value is thus a document exactly if all doubles in the value are
finite, and then it stands for the value: `isDocument_writeAt_iff_allFinite`,
`read?_writeAt`.
-/

namespace LineCalc.Json

open Text Decimal Binary64

variable {x : Float} {v : Json} {cs : List Char} {fuel : Nat}

/-! ## finite doubles in lists and objects -/

theorem itemsFinite_iff {vs : List Json} :
    itemsFinite vs = true ↔ ∀ v ∈ vs, allFinite v = true := by
  induction vs with
  | nil => simp [itemsFinite]
  | cons v vs ih => rw [itemsFinite, Bool.and_eq_true, ih, List.forall_mem_cons]

theorem fieldsFinite_iff {fs : List (String × Json)} :
    fieldsFinite fs = true ↔ ∀ p ∈ fs, allFinite p.2 = true := by
  induction fs with
  | nil => simp [fieldsFinite]
  | cons p fs ih =>
      obtain ⟨k, v⟩ := p
      rw [fieldsFinite, Bool.and_eq_true, ih, List.forall_mem_cons]

/-! ## the words for doubles that are not finite -/

/-- The three words that stand for a number that is not finite. -/
theorem write_of_not_finite (h : isFinite x = false) :
    Layout.document.write x = ['N', 'a', 'N'] ∨
      Layout.document.write x = ['I', 'n', 'f', 'i', 'n', 'i', 't', 'y'] ∨
      Layout.document.write x = ['-', 'I', 'n', 'f', 'i', 'n', 'i', 't', 'y'] := by
  have hn : ¬ pattern x < infinity := of_decide_eq_false h
  rw [Layout.write, Layout.writeMagnitude, if_neg hn]
  split
  · exact .inl rfl
  · cases isNegative x with
    | false => exact .inr (.inl rfl)
    | true => exact .inr (.inr rfl)

/-- None of these words is read. -/
theorem readValue?_not_finite (h : isFinite x = false) (fuel : Nat) (rest : List Char) :
    readValue? fuel (Layout.document.write x ++ rest) = none := by
  cases fuel with
  | zero => simp [readValue?]
  | succ fuel =>
      obtain hword | hword | hword := write_of_not_finite h
      all_goals
        rw [hword, List.cons_append, readValue?, skipGap_of_not (by decide)]
        rfl

/-! ## what a value begins with -/

/-- Every value is written as text that can stand at the front of a part. -/
theorem exists_head_writeAt (depth : Nat) (v : Json) :
    ∃ c more, writeAt depth v = c :: more ∧ IsHead c := by
  cases v with
  | null => exact ⟨_, _, by rw [writeAt], by decide⟩
  | bool b => cases b <;> exact ⟨_, _, by rw [writeAt], by decide⟩
  | int n =>
      rw [writeAt]
      exact (spells_writeInt n).exists_head
  | real x =>
      rw [writeAt]
      by_cases h : isFinite x = true
      · exact (spells_real h).exists_head
      · obtain hword | hword | hword := write_of_not_finite (Bool.eq_false_iff.mpr h)
        all_goals exact ⟨_, _, hword, by decide⟩
  | text s => exact ⟨_, _, by rw [writeAt, writeText], by decide⟩
  | list vs => cases vs <;> exact ⟨_, _, by rw [writeAt], by decide⟩
  | object fs =>
      cases fs with
      | nil => exact ⟨_, _, by rw [writeAt], by decide⟩
      | cons p fs =>
          obtain ⟨k, v⟩ := p
          exact ⟨_, _, by rw [writeAt], by decide⟩

/-! ## where the reader stops -/

/-- The items behind the first one begin with their comma. -/
theorem ends_writeItems (depth : Nat) {vs : List Json} (h : vs ≠ []) (rest : List Char) :
    Ends (writeItems depth vs ++ rest) ∧
      skipGap (writeItems depth vs ++ rest) = ',' :: ((writeItems depth vs).tail ++ rest) := by
  cases vs with
  | nil => exact absurd rfl h
  | cons v vs =>
      rw [writeItems, List.cons_append]
      exact ⟨ends_cons (by decide) _, skipGap_of_not (by decide) _⟩

/-- The fields behind the first one begin with their comma. -/
theorem ends_writeFields (depth : Nat) {fs : List (String × Json)} (h : fs ≠ [])
    (rest : List Char) : Ends (writeFields depth fs ++ rest) ∧
      skipGap (writeFields depth fs ++ rest) = ',' :: ((writeFields depth fs).tail ++ rest) := by
  cases fs with
  | nil => exact absurd rfl h
  | cons p fs =>
      obtain ⟨k, v⟩ := p
      rw [writeFields, List.cons_append]
      exact ⟨ends_cons (by decide) _, skipGap_of_not (by decide) _⟩

mutual

/-- With enough steps to read all of it, a value with a double that is not finite is not read. -/
theorem readValue?_writeAt_eq_none (depth : Nat) :
    (v : Json) → allFinite v = false → ∀ fuel rest, 2 * (writeAt depth v).length ≤ fuel →
      readValue? fuel (writeAt depth v ++ rest) = none
  | real x, h, fuel, rest, _ => by
      rw [writeAt]
      rw [allFinite] at h
      exact readValue?_not_finite h fuel rest
  | list (v :: vs), h, fuel, rest, hf => by
      rw [allFinite] at h
      obtain ⟨c, more, hhead, hc⟩ := exists_head_writeAt (depth + 1) v
      simp only [writeAt, hhead, List.length_cons, List.length_append] at hf
      obtain ⟨fuel, rfl⟩ := Nat.exists_eq_succ_of_ne_zero (n := fuel) (by omega)
      have hitems := readItems?_writeItems_eq_none (depth + 1) (v :: vs) h fuel []
        (newLine depth ++ ']' :: rest) (by
          simp only [writeItems, hhead, List.length_cons, List.length_append]
          omega)
      rw [writeItems, List.tail_cons, hhead, List.append_assoc, List.append_assoc,
        readItems?_gap (isGap_newLine _)] at hitems
      have hsplit : writeAt depth (list (v :: vs)) ++ rest =
          '[' :: (newLine (depth + 1) ++ c :: (more ++
            (writeItems (depth + 1) vs ++ (newLine depth ++ ']' :: rest)))) := by
        simp [writeAt, hhead]
      rw [hsplit, readValue?_list_of_head (isGap_newLine _) hc]
      exact hitems
  | object ((k, v) :: fs), h, fuel, rest, hf => by
      rw [allFinite] at h
      simp only [writeAt, List.length_cons, List.length_append] at hf
      obtain ⟨fuel, rfl⟩ := Nat.exists_eq_succ_of_ne_zero (n := fuel) (by omega)
      have hfields := readFields?_writeFields_eq_none (depth + 1) ((k, v) :: fs) h fuel []
        (newLine depth ++ '\x7d' :: rest) (by
          simp only [writeFields, List.length_cons, List.length_append]
          omega)
      rw [writeFields, List.tail_cons, writeText, List.append_assoc, List.append_assoc,
        List.append_assoc, readFields?_gap (isGap_newLine _), List.cons_append] at hfields
      have hsplit : writeAt depth (object ((k, v) :: fs)) ++ rest =
          '\x7b' :: (newLine (depth + 1) ++ doubleMark ::
            (k.toList.flatMap escapeChar ++ [doubleMark] ++ (':' :: ' ' :: writeAt (depth + 1) v ++
              (writeFields (depth + 1) fs ++ (newLine depth ++ '\x7d' :: rest))))) := by
        simp [writeAt, writeText]
      rw [hsplit, readValue?_object_of_head (isGap_newLine _) (by decide)]
      exact hfields
  | null, h, _, _, _ | bool true, h, _, _, _ | bool false, h, _, _, _ | int _, h, _, _, _
  | text _, h, _, _, _ | list [], h, _, _, _ | object [], h, _, _, _ => by
      simp [allFinite, itemsFinite, fieldsFinite] at h

/-- Items with a number that is not finite are not read, however much is read before it. -/
theorem readItems?_writeItems_eq_none (depth : Nat) :
    (vs : List Json) → itemsFinite vs = false → ∀ fuel read rest,
      2 * (writeItems depth vs).length ≤ fuel + 1 →
        readItems? fuel read ((writeItems depth vs).tail ++ rest) = none
  | v :: vs, h, fuel, read, rest, hf => by
      simp only [writeItems, List.length_cons, List.length_append] at hf
      obtain ⟨fuel, rfl⟩ := Nat.exists_eq_succ_of_ne_zero (n := fuel) (by omega)
      rw [writeItems, List.tail_cons, List.append_assoc, List.append_assoc,
        readItems?_gap (isGap_newLine _), readItems?]
      by_cases hv : allFinite v = true
      · have hvs : itemsFinite vs = false := by simpa [itemsFinite, hv] using h
        have hne : vs ≠ [] := by
          rintro rfl
          simp [itemsFinite] at hvs
        obtain ⟨hends, hskip⟩ := ends_writeItems depth hne rest
        have hread := readsBack_of_spells (spells_writeAt depth v hv) fuel _ (by omega) hends
        simp only [hread, hskip]
        exact readItems?_writeItems_eq_none depth vs hvs fuel (v :: read) rest (by omega)
      · rw [readValue?_writeAt_eq_none depth v (Bool.eq_false_iff.mpr hv) fuel _ (by omega)]
  | [], h, _, _, _, _ => by simp [itemsFinite] at h

/-- Fields with a number that is not finite are not read, however much is read before it. -/
theorem readFields?_writeFields_eq_none (depth : Nat) :
    (fs : List (String × Json)) → fieldsFinite fs = false → ∀ fuel read rest,
      2 * (writeFields depth fs).length ≤ fuel + 1 →
        readFields? fuel read ((writeFields depth fs).tail ++ rest) = none
  | (k, v) :: fs, h, fuel, read, rest, hf => by
      simp only [writeFields, writeText, List.length_cons, List.length_append] at hf
      obtain ⟨fuel, rfl⟩ := Nat.exists_eq_succ_of_ne_zero (n := fuel) (by omega)
      have hsplit : (writeFields depth ((k, v) :: fs)).tail ++ rest =
          newLine depth ++ doubleMark :: (k.toList.flatMap escapeChar ++ doubleMark ::
            ([] ++ ':' :: ([' '] ++ (writeAt depth v ++ (writeFields depth fs ++ rest))))) := by
        simp [writeFields, writeText]
      rw [hsplit, readFields?_gap (isGap_newLine _),
        readFields?_name (characters_flatMap k.toList) isGap_nil isGap_space fuel (by omega)]
      by_cases hv : allFinite v = true
      · have hfs : fieldsFinite fs = false := by simpa [fieldsFinite, hv] using h
        have hne : fs ≠ [] := by
          rintro rfl
          simp [fieldsFinite] at hfs
        obtain ⟨hends, hskip⟩ := ends_writeFields depth hne rest
        have hread := readsBack_of_spells (spells_writeAt depth v hv) fuel _ (by omega) hends
        simp only [hread, hskip, readAfterField?]
        exact readFields?_writeFields_eq_none depth fs hfs fuel _ rest (by omega)
      · rw [readValue?_writeAt_eq_none depth v (Bool.eq_false_iff.mpr hv) fuel _ (by omega)]
  | [], h, _, _, _, _ => by simp [fieldsFinite] at h

end

/-! ## documents -/

/-- A gap behind a document belongs to it. -/
theorem IsDocument.append_gap {gap : List Char} (h : IsDocument cs v) (hg : IsGap gap) :
    IsDocument (cs ++ gap) v := by
  obtain ⟨gap₁, text, gap₂, rfl, h₁, h₂, hs⟩ := h
  exact ⟨gap₁, text, gap₂ ++ gap, by simp only [List.append_assoc], h₁,
    fun c hc => (List.mem_append.mp hc).elim (h₂ c) (hg c), hs⟩

/-- What is written is read as what it was written from, unless a double in it is not finite. -/
theorem read?_writeAt (depth : Nat) (v : Json) {gap : List Char} (hg : IsGap gap) :
    read? (writeAt depth v ++ gap) = if allFinite v = true then some v else none := by
  split
  · next h => exact ((isDocument_writeAt h depth).append_gap hg).read?_eq
  · next h =>
    rw [read?, readValue?_writeAt_eq_none depth v (Bool.eq_false_iff.mpr h) _ gap (by
      rw [List.length_append]
      omega)]

/-- A written value is a document exactly if its numbers are finite, and then of itself alone. -/
theorem isDocument_writeAt_iff_allFinite {w : Json} (depth : Nat) {gap : List Char}
    (hg : IsGap gap) : IsDocument (writeAt depth v ++ gap) w ↔ allFinite v = true ∧ w = v := by
  constructor
  · intro hw
    have hread := hw.read?_eq
    rw [read?_writeAt depth v hg] at hread
    split at hread
    · next h => exact ⟨h, (Option.some.inj hread).symm⟩
    · cases hread
  · rintro ⟨h, rfl⟩
    exact (isDocument_writeAt h depth).append_gap hg

end LineCalc.Json
