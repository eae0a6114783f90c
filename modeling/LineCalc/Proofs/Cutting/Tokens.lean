import LineCalc.Proofs.Cutting.Number
import LineCalc.Proofs.Text.Classes

/-!
# LineCalc.Proofs.Cutting.Tokens

What a cursor cuts out of a line.  A move of a cursor is a passage over the
characters next to it (`Cursor.past`).  One token after another, the line is
blanks, a lexeme of the kind that the token says, and the rest (`Cursor.Takes`),
until only blanks are left; hence the tokens of a line cut it as `Cuts` says:
`cuts_tokensOf`.
-/

namespace LineCalc

open Text

namespace Cursor

variable {c c' : Cursor} {t : Token} {ch : Char} {cs : List Char}

/-! ## moves as passages -/

/-- The cursor further by the characters `front`, where `more` are left. -/
def past (c : Cursor) (front more : List Char) : Cursor :=
  { c with taken := front.reverse ++ c.taken, rest := more }

/-- Stepping over a class of characters is a passage over all of it that comes next. -/
theorem stepWhile_eq_past (p : Char → Bool) (c : Cursor) :
    c.stepWhile p = c.past (c.rest.takeWhile p) (c.rest.dropWhile p) := rfl

/-- A step is a passage over one character. -/
theorem step_eq_past (h : c.rest = ch :: cs) (hne : c.rest ≠ []) : c.step hne = c.past [ch] cs := by
  simp [step, past, h]

/-- Two passages are one over both their texts. -/
theorem past_past (c : Cursor) (front more front' more' : List Char) :
    (c.past front more).past front' more' = c.past (front ++ front') more' := by
  simp [past]

/-- From the mark, a passage leaves its text as the lexeme. -/
theorem lexeme_past (ht : c.taken = []) (front more : List Char) :
    (c.past front more).lexeme = front := by
  simp [past, lexeme, ht]

/-! ## numbers -/

/-- Where a point belongs to the number before it, the digits after it do too. -/
theorem pointFront_of_atPoint (h : c.atPoint = true) :
    ∃ cs, c.rest = '.' :: cs ∧ pointFront c.trailingDot c.rest = '.' :: cs.takeWhile isDigit := by
  rw [atPoint, Bool.and_eq_true, decide_eq_true_eq] at h
  obtain ⟨cs, hcs⟩ := List.head?_eq_some_iff.mp h.1
  refine ⟨cs, hcs, ?_⟩
  have hd : (c.trailingDot || cs.head?.any isDigit) = true := by
    simpa [peekNext, hcs] using h.2
  rw [hcs, pointFront, if_pos hd]

/-- Where no point belongs to a number, it takes nothing more. -/
theorem pointFront_eq_nil (h : c.atPoint = false) : pointFront c.trailingDot c.rest = [] := by
  unfold pointFront
  split
  · next cs hcs =>
    have hd : (c.trailingDot || cs.head?.any isDigit) = false := by
      simpa [atPoint, peek, peekNext, hcs] using h
    rw [if_neg (by simp [hd])]
  · rfl

/-- What a cursor passes as a number is the number at the front of what is left. -/
theorem exists_skipNumber (c : Cursor) :
    ∃ more, c.rest = numberFront c.trailingDot c.rest ++ more ∧
      c.skipNumber = c.past (numberFront c.trailingDot c.rest) more := by
  have hsplit : c.rest.takeWhile isDigit ++ c.digits.rest = c.rest :=
    List.takeWhile_append_dropWhile
  have hfront : numberFront c.trailingDot c.rest =
      c.rest.takeWhile isDigit ++ pointFront c.digits.trailingDot c.digits.rest := rfl
  rw [skipNumber]
  split
  · next h =>
    obtain ⟨cs, hcs, hpoint⟩ := pointFront_of_atPoint h
    rw [hpoint] at hfront
    refine ⟨cs.dropWhile isDigit, ?_, ?_⟩
    · rw [hfront, List.append_assoc, List.cons_append, List.takeWhile_append_dropWhile, ← hcs,
        hsplit]
    · rw [hfront, step_eq_past hcs, digits, digits, stepWhile_eq_past, stepWhile_eq_past, past_past,
        past_past]
      rfl
  · next h =>
    rw [pointFront_eq_nil (Bool.eq_false_iff.mpr h), List.append_nil] at hfront
    exact ⟨c.digits.rest, by rw [hfront, hsplit], by rw [hfront]; rfl⟩

theorem numberFront_cons (trailingDot : Bool) (h : isDigit ch = true) :
    numberFront trailingDot (ch :: cs) = ch :: numberFront trailingDot cs := by
  simp [numberFront, h]

/-! ## tokens -/

/-- The cursor finds a token after some blanks, and goes on behind it. -/
structure Takes (c : Cursor) (blanks : List Char) (t : Token) (c' : Cursor) : Prop where
  rest : c.rest = blanks ++ t.lexeme ++ c'.rest
  trailingDot : c'.trailingDot = c.trailingDot
  blank : blanks.all isBlank = true
  valid : t.isValid c.trailingDot = true
  longest : t.kind = .number →
    LongestFront (isNumber c.trailingDot) t.lexeme (t.lexeme ++ c'.rest)

/-- A character with a kind of its own is a valid token, and no number. -/
theorem isValid_of_ofChar? {trailingDot : Bool} {k : Kind} (h : Kind.ofChar? ch = some k) :
    Token.isValid trailingDot ⟨k, [ch]⟩ = true ∧ k ≠ .number := by
  have hs := (Kind.symbol_of_ofChar? h).symm
  cases k <;> simp_all [Kind.symbol, Token.isValid]

/-- At the end of the line stands the end token. -/
theorem tokenHere_of_nil (hc : c.rest = []) : c.tokenHere = (c.token .eof, c) := by
  unfold tokenHere
  split
  · rfl
  · next h => simp [hc] at h

theorem tokenHere_of_cons (hc : c.rest = ch :: cs) :
    c.tokenHere = tokenFrom ch (c.past [ch] cs) := by
  unfold tokenHere
  split
  · next h => simp [hc] at h
  · next h =>
    obtain ⟨rfl, rfl⟩ := List.cons.inj (hc.symm.trans h)
    rw [step_eq_past hc]

/-- A character that is a token alone is taken as this token. -/
theorem takes_character {k : Kind} (ht : c.taken = []) (hc : c.rest = ch :: cs)
    (hv : Token.isValid c.trailingDot ⟨k, [ch]⟩ = true) (hk : k ≠ .number) :
    c.Takes [] ((c.past [ch] cs).token k) (c.past [ch] cs) := by
  have htoken : (c.past [ch] cs).token k = ⟨k, [ch]⟩ := by rw [token, lexeme_past ht]
  rw [htoken]
  exact ⟨hc, rfl, rfl, hv, fun h => absurd h hk⟩

/-- At a digit a number is taken, as long as it can be. -/
theorem takes_number (ht : c.taken = []) (hc : c.rest = ch :: cs) (hd : isDigit ch = true) :
    c.Takes [] (c.past [ch] cs).number.1 (c.past [ch] cs).number.2 := by
  -- the cursor has taken the first digit already, so its number lacks that one
  obtain ⟨more, hcs, hskip⟩ := exists_skipNumber (c.past [ch] cs)
  have hlongest : LongestFront (isNumber c.trailingDot) (numberFront c.trailingDot c.rest) c.rest :=
    longestFront_numberFront (by simp [hc, hd])
  have hfront : numberFront c.trailingDot c.rest = ch :: numberFront c.trailingDot cs := by
    rw [hc, numberFront_cons _ hd]
  have hrest : c.rest = numberFront c.trailingDot c.rest ++ more := by
    rw [hfront, List.cons_append, ← show cs = numberFront c.trailingDot cs ++ more from hcs, hc]
  have hpast : (c.past [ch] cs).skipNumber = c.past (numberFront c.trailingDot c.rest) more := by
    rw [hskip, past_past, hfront]
    rfl
  simp only [number, hpast, token, lexeme_past ht]
  refine ⟨hrest, rfl, rfl, hlongest.holds, fun _ => ?_⟩
  show LongestFront _ _ (numberFront c.trailingDot c.rest ++ more)
  rwa [← hrest]

/-- A text that begins with no blank begins with a token. -/
theorem takes_tokenHere (ht : c.taken = []) (hc : c.rest = ch :: cs) (hb : isBlank ch = false) :
    c.Takes [] c.tokenHere.1 c.tokenHere.2 := by
  rw [tokenHere_of_cons hc, tokenFrom]
  split
  · next k hk =>
    obtain ⟨hv, hne⟩ := isValid_of_ofChar? hk
    exact takes_character ht hc hv hne
  · next hk =>
    split
    · next hd => exact takes_number ht hc hd
    · next hd =>
      exact takes_character ht hc (by simp [Token.isValid, isStray, hb, hd, hk]) (by simp)

/-- The next token is the end of the line where only blanks are left. -/
theorem next_cases (c : Cursor) :
    (c.rest.all isBlank = true ∧ c.next.1 = Token.endOfLine) ∨
      ∃ blanks, c.Takes blanks c.next.1 c.next.2 := by
  have hsplit : c.rest.takeWhile isBlank ++ c.skipBlanks.mark.rest = c.rest :=
    List.takeWhile_append_dropWhile
  cases hc : c.skipBlanks.mark.rest with
  | nil =>
      rw [hc, List.append_nil] at hsplit
      refine .inl ⟨by rw [← hsplit]; exact List.all_takeWhile, ?_⟩
      rw [next, tokenHere_of_nil hc]
      rfl
  | cons ch cs =>
      have hb : isBlank ch = false := by
        have := List.head?_dropWhile_not isBlank c.rest
        rw [show c.rest.dropWhile isBlank = ch :: cs from hc] at this
        simpa using this
      have h := takes_tokenHere rfl hc hb
      refine .inr ⟨c.rest.takeWhile isBlank, ⟨?_, h.trailingDot, List.all_takeWhile, h.valid,
        h.longest⟩⟩
      rw [List.append_assoc, ← List.nil_append (Token.lexeme _ ++ _), ← List.append_assoc [],
        next, ← h.rest, hsplit]

/-! ## all the tokens -/

/-- Only the last token of a scan is an end token. -/
theorem ne_eof_of_isValid {trailingDot : Bool} (h : t.isValid trailingDot = true) :
    t.kind ≠ .eof := by
  intro hk
  simp [Token.isValid, hk] at h

/-- A scan ends with the end token. -/
theorem tokensAfter_of_eof (read : List Token) (h : c.next.1.kind = .eof) :
    c.tokensAfter read = ((c.next.1 :: read).reverse, c.next.2) := by
  rw [tokensAfter]
  exact dif_pos h

/-- A scan that has read a token goes on behind it. -/
theorem tokensAfter_of_ne_eof (read : List Token) (h : c.next.1.kind ≠ .eof) :
    c.tokensAfter read = c.next.2.tokensAfter (c.next.1 :: read) := by
  rw [tokensAfter]
  exact dif_neg h

/-- The tokens up to the end of the line cut what is left of it. -/
theorem exists_tokensAfter (read : List Token) (c : Cursor) :
    ∃ ts, (c.tokensAfter read).1 = read.reverse ++ ts ∧ Cuts c.trailingDot c.rest ts := by
  obtain ⟨hb, ht⟩ | ⟨blanks, ht⟩ := c.next_cases
  · rw [tokensAfter_of_eof read (by rw [ht]; rfl), ht, List.reverse_cons]
    exact ⟨_, rfl, .finish hb⟩
  · have hk := ne_eof_of_isValid ht.valid
    have := c.length_rest_next hk
    obtain ⟨ts, hts, hcuts⟩ := exists_tokensAfter (c.next.1 :: read) c.next.2
    rw [ht.trailingDot] at hcuts
    refine ⟨c.next.1 :: ts, ?_, ?_⟩
    · rw [tokensAfter_of_ne_eof read hk, hts, List.reverse_cons, List.append_assoc,
        List.singleton_append]
    · rw [ht.rest]
      exact .token ht.blank ht.valid ht.longest hcuts
termination_by c.rest.length

end Cursor

/-- The tokens of a line cut it. -/
theorem cuts_tokensOf (trailingDot : Bool) (source : List Char) :
    Cuts trailingDot source (tokensOf trailingDot source) := by
  obtain ⟨ts, hts, hcuts⟩ := Cursor.exists_tokensAfter [] (.start trailingDot source)
  rw [tokensOf, Cursor.tokens, hts]
  exact hcuts

namespace Cuts

variable {trailingDot : Bool} {cs : List Char} {ts : List Token}

/-- A line cut into tokens ends with the end of the line, and with nothing like it before. -/
theorem exists_isValid (h : Cuts trailingDot cs ts) :
    ∃ before, ts = before ++ [Token.endOfLine] ∧ ∀ t ∈ before, t.isValid trailingDot = true := by
  induction h with
  | finish _ => exact ⟨[], rfl, by simp⟩
  | token _ hv _ _ ih =>
      obtain ⟨before, rfl, hb⟩ := ih
      exact ⟨_ :: before, rfl, List.forall_mem_cons.mpr ⟨hv, hb⟩⟩

end Cuts

end LineCalc
