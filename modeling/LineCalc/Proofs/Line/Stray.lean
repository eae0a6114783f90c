import LineCalc.Proofs.Cutting.Uniqueness
import LineCalc.Proofs.Line.Outcome
import LineCalc.Proofs.Reading.Derivation

/-!
# LineCalc.Proofs.Line.Stray

Lines that are no expressions because of one character.  No error token is
part of an expression (`Derives.ne_error`), so a line with one fails by the
grammar whatever else there is: `Line.read_of_error`.  A stray character
becomes an error token wherever it stands, unless it is a point, which may be
part of a number: `Line.read_of_stray`.
-/

namespace LineCalc

open Text

variable {depth : Nat} {rank : Rank} {ts : List Token} {t : Token} {e : Expr}
variable {s : Settings} {text : List Char} {c : Char}

/-- The tokens of an expression are no errors. -/
theorem Derives.ne_error (h : Derives depth rank ts e) : ∀ t ∈ ts, t.kind ≠ .error := by
  induction h with
  | number hk _ => simp [hk]
  | parentheses ho hc _ ih => simpa [or_imp, forall_and, ho, hc] using ih
  | unsigned _ ih | factor _ ih | term _ ih => exact ih
  | signed hs _ ih => simpa [(Kind.not_operand_of_sign? hs).2] using ih
  | multiply _ ho _ ihl ihr =>
      have hk := Kind.not_operand_of_operator? (Kind.operator?_of_multiplicative? ho)
      simpa [or_imp, forall_and, hk.2] using ⟨ihl, ihr⟩
  | add _ ho _ ihl ihr =>
      have hk := Kind.not_operand_of_operator? (Kind.operator?_of_additive? ho)
      simpa [or_imp, forall_and, hk.2] using ⟨ihl, ihr⟩

namespace Line

/-- The tokens of a line that is an expression derive it, and the end of the line follows them. -/
theorem exists_derives (h : read s text = .ok e) :
    ∃ ts, tokens s text = ts ++ [.endOfLine] ∧ Derives s.limit .addition ts e := by
  obtain ⟨ts, hts, hv⟩ := (cuts_tokensOf s.trailingDot text).exists_isValid
  have hd := (readTokens_eq_ok_iff (isLine_tokensOf s.trailingDot text)).mp h
  rw [hts, beforeEnd_append (fun t ht => Cursor.ne_eof_of_isValid (hv t ht)) rfl] at hd
  exact ⟨ts, hts, hd⟩

/-- A line that is read has no error token. -/
theorem ne_error_of_read (h : read s text = .ok e) : ∀ t ∈ tokens s text, t.kind ≠ .error := by
  obtain ⟨ts, hts, hd⟩ := exists_derives h
  intro t ht
  rw [hts, List.mem_append, List.mem_singleton] at ht
  obtain ht | rfl := ht
  · exact hd.ne_error t ht
  · simp [Token.endOfLine]

/-- A line with an error token fails by the grammar. -/
theorem read_of_error (ht : t ∈ tokens s text) (hk : t.kind = .error) :
    ∃ g, read s text = .error (.grammar g) := by
  obtain ⟨e, he⟩ | hg := readTokens_tokensOf_cases s.limit s.trailingDot text
  · exact absurd hk (ne_error_of_read he t ht)
  · exact hg

/-- A stray character other than a point is an error token. -/
theorem exists_error_of_stray (hc : c ∈ text) (hs : isStray c = true) (hp : c ≠ '.') :
    ∃ t ∈ tokens s text, t.kind = .error := by
  have hcuts := cuts_tokensOf s.trailingDot text
  obtain ⟨before, hts, hv⟩ := hcuts.exists_isValid
  have hstray : isBlank c = false ∧ isDigit c = false ∧ Kind.ofChar? c = none := by
    simpa [isStray, and_assoc] using hs
  have hmem : c ∈ lexemes (tokensOf s.trailingDot text) := by
    rw [hcuts.lexemes_eq]
    simpa [hstray.1] using hc
  obtain ⟨t, ht, hct⟩ := List.mem_flatMap.mp hmem
  refine ⟨t, ht, ?_⟩
  rw [hts, List.mem_append, List.mem_singleton] at ht
  obtain ht | rfl := ht
  · obtain ⟨d, ds, hb⟩ := Token.exists_begins (hv t ht)
    by_cases hk : t.kind = .number
    · have hn : isNumber s.trailingDot t.lexeme = true := by
        simpa [Token.isValid, hk] using hv t ht
      have := (pointed_of_isNumber hn).mem c hct
      simp [hstray.2.1, hp] at this
    · rw [hb.lexeme, hb.alone hk, List.mem_singleton] at hct
      rw [hb.kind, ← hct, Kind.ofFirst, hstray.2.2]
      simp [hstray.2.1]
  · simp [Token.endOfLine] at hct

/-- A line with a stray character other than a point fails by the grammar. -/
theorem read_of_stray (hc : c ∈ text) (hs : isStray c = true) (hp : c ≠ '.') :
    ∃ g, read s text = .error (.grammar g) := by
  obtain ⟨t, ht, hk⟩ := exists_error_of_stray (s := s) hc hs hp
  exact read_of_error ht hk

/-- A line with a stray character other than a point has a fault of the grammar. -/
theorem evaluate_of_stray (hc : c ∈ text) (hs : isStray c = true) (hp : c ≠ '.') :
    ∃ g, evaluate s text = .error (.reading (.grammar g)) := by
  obtain ⟨g, hg⟩ := read_of_stray (s := s) hc hs hp
  exact ⟨g, evaluate_of_read_error hg⟩

end Line

end LineCalc
