import LineCalc.Proofs.Cutting.Spaced

/-!
# LineCalc.Proofs.Cutting.Signs

A character with a kind of its own is a token by itself wherever it stands.
No number reaches over it, so it parts a line in two that are cut apart from
each other (`tokensOf_append_sign`), and there are as many tokens of its kind
as the line has of the character: `countP_tokensOf`.
-/

namespace LineCalc

open Text

variable {trailingDot : Bool} {cs rest front : List Char} {before us ts : List Token} {t : Token}
variable {c : Char} {k : Kind}

namespace Kind

/-- The kinds with a character of their own are neither numbers nor errors. -/
theorem ne_of_ofChar? (h : ofChar? c = some k) : k ≠ .number ∧ k ≠ .error := by
  have hs := symbol_of_ofChar? h
  cases k <;> simp_all [symbol]

/-- A sign's kind belongs to one character only. -/
theorem ofFirst_eq_iff {d : Char} (h : ofChar? c = some k) : ofFirst d = k ↔ d = c := by
  constructor
  · intro hd
    cases hk : ofChar? d with
    | some k' =>
        rw [ofFirst, hk] at hd
        obtain rfl : k' = k := hd
        have hsymbol := (symbol_of_ofChar? hk).symm.trans (symbol_of_ofChar? h)
        exact (List.cons.inj hsymbol).1
    | none =>
        have := ne_of_ofChar? h
        grind [ofFirst]
  · rintro rfl
    rw [ofFirst, h]

end Kind

/-- A sign ends a number. -/
theorem stops_of_ofChar? (h : Kind.ofChar? c = some k) : Stops c := by
  have hk := Kind.ne_of_ofChar? h
  have hfirst : Kind.ofFirst c = k := (Kind.ofFirst_eq_iff h).mpr rfl
  exact stops_of_ofFirst (hfirst ▸ hk.1) (hfirst ▸ hk.2)

/-! ## a line parted by a character -/

/-- The longest number at the front of a text does not get longer where the text goes on with no
part of a number. -/
theorem LongestFront.append_of_stops (h : LongestFront (isNumber trailingDot) front cs)
    (hc : Stops c) : LongestFront (isNumber trailingDot) front (cs ++ c :: rest) where
  front_of := h.front_of.trans (List.prefix_append cs _)
  holds := h.holds
  longest := by
    intro other hother hn
    obtain hle | ⟨more, rfl⟩ := List.prefix_or_prefix_of_prefix hother (List.prefix_append cs _)
    · exact h.longest other hle hn
    · cases more with
      | nil => exact h.longest _ (by simp) hn
      | cons d more =>
          obtain rfl : d = c := by
            rw [List.prefix_append_right_inj, List.cons_prefix_cons] at hother
            exact hother.1
          have hmem := (pointed_of_isNumber hn).mem d (by simp)
          grind [Stops]

namespace Cuts

/-- A character of its own kind between two lines that are cut, whose ends it takes away and
keeps. -/
theorem append_sign (hk : Kind.ofChar? c = some k)
    (h : Cuts trailingDot cs (before ++ [Token.endOfLine])) (h' : Cuts trailingDot rest us) :
    Cuts trailingDot (cs ++ c :: rest) (before ++ ⟨k, [c]⟩ :: us) := by
  generalize hts : before ++ [Token.endOfLine] = ts at h
  induction h generalizing before with
  | @finish blanks hb =>
      obtain rfl : before = [] := by simpa using hts
      have hsign : Token.isValid trailingDot ⟨k, [c]⟩ = true ∧ _ := Cursor.isValid_of_ofChar? hk
      simpa using Cuts.token hb hsign.1 (fun hn => absurd hn hsign.2) h'
  | @token blanks more t ts hb hv hl hc ih =>
      cases before with
      | nil =>
          obtain ⟨rfl, rfl⟩ : Token.endOfLine = t ∧ [] = ts := by simpa using hts
          cases hc
      | cons u before =>
          obtain ⟨rfl, hrest⟩ := List.cons.inj hts
          have hlongest : u.kind = .number → LongestFront (isNumber trailingDot) u.lexeme
              (u.lexeme ++ (more ++ c :: rest)) := fun hn => by
            simpa using (hl hn).append_of_stops (stops_of_ofChar? hk)
          simpa using Cuts.token hb hv hlongest (ih hrest)

end Cuts

/-- A character of its own kind parts a line into two, which are cut apart from each other. -/
theorem tokensOf_append_sign (hk : Kind.ofChar? c = some k)
    (h : tokensOf trailingDot cs = before ++ [Token.endOfLine]) :
    tokensOf trailingDot (cs ++ c :: rest) = before ++ ⟨k, [c]⟩ :: tokensOf trailingDot rest :=
  (cuts_tokensOf _ _).unique
    (.append_sign hk (h ▸ cuts_tokensOf trailingDot cs) (cuts_tokensOf trailingDot rest))

/-! ## the characters of a kind counted -/

/-- A token has the character if it is of its kind, and once. -/
theorem Token.count_lexeme (hk : Kind.ofChar? c = some k) (h : t.isValid trailingDot = true) :
    t.lexeme.count c = if t.kind = k then 1 else 0 := by
  obtain ⟨d, ds, hb⟩ := exists_begins h
  by_cases hn : t.kind = .number
  · have hnumber : LineCalc.isNumber trailingDot t.lexeme = true := by simpa [isValid, hn] using h
    have hmem : c ∉ t.lexeme := fun hc => by
      have hstops := stops_of_ofChar? hk
      have := (pointed_of_isNumber hnumber).mem c hc
      grind [Stops]
    have hne : t.kind ≠ k := hn ▸ (Kind.ne_of_ofChar? hk).1.symm
    rw [List.count_eq_zero_of_not_mem hmem, if_neg hne]
  · rw [hb.lexeme, hb.alone hn, hb.kind, List.count_singleton]
    simp [Kind.ofFirst_eq_iff hk]

/-- There are as many tokens of a kind as the line has of its character. -/
theorem countP_tokensOf (hk : Kind.ofChar? c = some k) (hne : k ≠ .eof) (cs : List Char) :
    (tokensOf trailingDot cs).countP (·.kind = k) = cs.count c := by
  have hcuts := cuts_tokensOf trailingDot cs
  have hblank : isBlank c = false := (Kind.apart_of_ofChar? hk).1
  obtain ⟨before, hts, hv⟩ := hcuts.exists_isValid
  have hlexemes : (lexemes (tokensOf trailingDot cs)).count c = cs.count c := by
    rw [hcuts.lexemes_eq, List.count_filter (by simpa using hblank)]
  have hbefore : ∀ ts : List Token, (∀ t ∈ ts, t.isValid trailingDot = true) →
      (lexemes ts).count c = ts.countP (·.kind = k) := by
    intro ts hts
    induction ts with
    | nil => rfl
    | cons t ts ih =>
        obtain ⟨ht, hts⟩ := List.forall_mem_cons.mp hts
        rw [lexemes_cons, List.count_append, Token.count_lexeme hk ht, ih hts, List.countP_cons]
        simp [Nat.add_comm]
  have hend : lexemes (before ++ [Token.endOfLine]) = lexemes before := by
    simp [lexemes, Token.endOfLine]
  rw [← hlexemes, hts, hend, hbefore before hv, List.countP_append]
  simpa [Token.endOfLine] using hne.symm

end LineCalc
