import LineCalc.Proofs.Cutting.Onward

/-!
# LineCalc.Proofs.Cutting.Places

Mark and cursor as places in a line.  The mark is never behind the cursor, the
cursor never behind the end of the line, what lies between them is the lexeme,
and what can be seen ahead is the characters of the line there (`Cursor.At`).
Every token but the last takes a character that is no blank, which bounds how
many there are (`Cuts.length_le`).  So it is at every place that operations
lead to, none of them goes back, and the one thing that can fail is to take a
character where none is left: `Cursor.perform_in_bounds`.
-/

namespace LineCalc

open Text

variable {trailingDot : Bool} {source cs : List Char} {ts : List Token} {c : Cursor}

/-! ## how many tokens there are -/

/-- Every token of a scan holds a character at least. -/
theorem length_le_lexemes (hv : ∀ t ∈ ts, t.isValid trailingDot = true) :
    ts.length ≤ (lexemes ts).length := by
  induction ts with
  | nil => exact Nat.le_refl _
  | cons t ts ih =>
      obtain ⟨ht, hts⟩ := List.forall_mem_cons.mp hv
      obtain ⟨first, others, hb⟩ := Token.exists_begins ht
      have := ih hts
      simp only [lexemes_cons, hb.lexeme, List.length_cons, List.length_append]
      omega

/-- A line has at most one token more than characters that are no blanks. -/
theorem Cuts.length_le (h : Cuts trailingDot cs ts) :
    ts.length ≤ (cs.filter (!isBlank ·)).length + 1 := by
  obtain ⟨before, rfl, hv⟩ := h.exists_isValid
  have hbefore := length_le_lexemes hv
  rw [← h.lexemes_eq, lexemes, List.flatMap_append, List.length_append, List.length_append]
  simp only [lexemes] at hbefore
  simp only [List.length_singleton]
  omega

namespace Cursor

/-! ## places in a line -/

/-- A cursor with mark and cursor at two places of a line, and what is around them. -/
structure At (c : Cursor) (text : List Char) (mark place : Nat) : Prop where
  source : c.source = text
  mark_le : mark ≤ place
  place_le : place ≤ text.length
  lexeme : c.lexeme = (text.take place).drop mark
  peek : c.peek = text[place]?
  peekNext : c.peekNext = text[place + 1]?
  isAtEnd : c.isAtEnd = true ↔ place = text.length

/-- The source is what has been read and what is left. -/
theorem length_source (c : Cursor) : c.source.length = c.place + c.rest.length := by
  simp only [source, place, List.length_append, List.length_reverse]
  omega

/-- Nothing is left to read exactly at the end of the source. -/
theorem rest_eq_nil_iff (c : Cursor) : c.rest = [] ↔ c.place = c.source.length := by
  rw [length_source, ← List.length_eq_zero_iff]
  omega

theorem at_places (c : Cursor) : c.At c.source c.markPlace c.place where
  source := rfl
  mark_le := by
    simp only [markPlace, place]
    omega
  place_le := by
    rw [length_source]
    omega
  lexeme := by
    have htake : c.source.take c.place = c.passed.reverse ++ c.taken.reverse := by
      rw [source, ← List.append_assoc]
      exact List.take_left' (by simp [place])
    rw [htake]
    exact (List.drop_left' (by simp [markPlace])).symm
  peek := by rw [Cursor.peek, rest_eq_drop, List.head?_drop]
  peekNext := by rw [Cursor.peekNext, rest_eq_drop, List.tail_drop, List.head?_drop]
  isAtEnd := by rw [Cursor.isAtEnd, List.isEmpty_iff, rest_eq_nil_iff]

/-! ## what an operation answers -/

/-- A text is accepted if it is the next character and nothing else. -/
theorem accept_eq_true_iff (expected : List Char) (c : Cursor) :
    (c.accept expected).1 = true ↔ ∃ ch, c.peek = some ch ∧ expected = [ch] := by
  unfold accept
  split
  · next ch cs hc =>
    have hpeek : c.peek = some ch := by rw [peek, hc]; rfl
    split
    · next he => exact iff_of_true rfl ⟨ch, hpeek, he⟩
    · next he =>
      refine iff_of_false (by simp) ?_
      rintro ⟨d, hd, rfl⟩
      exact he (by rw [Option.some.inj (hpeek.symm.trans hd)])
  · next hc => simp [peek, hc]

/-- Only an advance at the end of the line fails. -/
theorem perform_fst_eq_exhausted_iff (op : Op) (c : Cursor) :
    (c.perform op).1 = .exhausted ↔ op = .advance ∧ c.rest = [] := by
  cases op with
  | advance =>
      simp only [perform]
      split
      · next h => simp [h]
      · next h => simp [h]
  | _ => simp [perform]

/-- A failed operation leaves the cursor as it was. -/
theorem perform_of_exhausted {op : Op} (h : (c.perform op).1 = .exhausted) :
    c.perform op = (.exhausted, c) := by
  obtain ⟨rfl, hrest⟩ := (perform_fst_eq_exhausted_iff op c).mp h
  simp [perform, hrest]

/-- The tokens from a cursor on end with the one end of the line, and there is at most one more of
them than characters in the line that are no blanks. -/
theorem exists_before_tokens (c : Cursor) : ∃ before, c.tokens.1 = before ++ [Token.endOfLine] ∧
    (∀ t ∈ before, t.kind ≠ .eof) ∧ before.length ≤ (c.source.filter (!isBlank ·)).length := by
  have hcuts : Cuts c.trailingDot c.rest c.tokens.1 := tokens_eq c ▸ cuts_tokensOf _ _
  obtain ⟨before, hb, hv⟩ := hcuts.exists_isValid
  refine ⟨before, hb, fun t ht => ne_eof_of_isValid (hv t ht), ?_⟩
  have hlength := hcuts.length_le
  have hsource : (c.rest.filter (!isBlank ·)).length ≤ (c.source.filter (!isBlank ·)).length := by
    rw [rest_eq_drop]
    exact ((List.drop_sublist _ _).filter _).length_le
  rw [hb, List.length_append, List.length_singleton] at hlength
  omega

/-! ## after any operations -/

/-- At every place that operations lead to, mark and cursor are in the line, in this order, with
the lexeme between them; what is seen ahead is there, and a text is accepted only if it is the next
character.  Every operation ends after some steps, and neither the mark nor the cursor goes back.
The one that can fail is to take a character at the end of the line, which leaves both where they
are.  The tokens from there on end with the end of the line, which is none of the others, and all
but this one are at most as many as the characters of the line that are no blanks. -/
theorem perform_in_bounds (h : Reached trailingDot source c) (op : Op) :
    c.At source c.markPlace c.place ∧
    (∀ expected, (c.accept expected).1 = true ↔
      ∃ ch, source[c.place]? = some ch ∧ expected = [ch]) ∧
    (Steps c (c.perform op).2 ∧ c.markPlace ≤ (c.perform op).2.markPlace ∧
      c.place ≤ (c.perform op).2.place) ∧
    ((c.perform op).1 = .exhausted ↔ op = .advance ∧ c.place = source.length) ∧
    ((c.perform op).1 = .exhausted → (c.perform op).2 = c) ∧
    ∃ before c', c.perform .tokens = (.tokens (before ++ [Token.endOfLine]), c') ∧
      (∀ t ∈ before, t.kind ≠ .eof) ∧ before.length ≤ (source.filter (!isBlank ·)).length := by
  obtain rfl : c.source = source := h.moves.source.trans (by simp [start, Cursor.source])
  have hsteps := steps_perform op c
  refine ⟨at_places c, fun expected => ?_,
    ⟨hsteps, hsteps.moves.markPlace_le, hsteps.moves.place_le⟩, ?_, fun he => ?_, ?_⟩
  · rw [accept_eq_true_iff, (at_places c).peek]
  · rw [perform_fst_eq_exhausted_iff, rest_eq_nil_iff]
  · rw [perform_of_exhausted he]
  · obtain ⟨before, hb, hne, hlength⟩ := exists_before_tokens c
    exact ⟨before, c.tokens.2, by rw [← hb]; rfl, hne, hlength⟩

/-- In `1. `, after all of it has been taken or passed, with the mark still at the start. -/
def behindBlank : Cursor :=
  ((((start false ['1', '.', ' ']).perform .advance).2.perform (.accept ['.'])).2.perform
    .skipBlanks).2

/-- Behind the line `1. ` an advance fails and a scan still ends with its end token. -/
theorem perform_in_bounds_behindBlank :
    Reached false ['1', '.', ' '] behindBlank ∧
      behindBlank.At ['1', '.', ' '] 0 3 ∧
      behindBlank.perform .advance = (.exhausted, behindBlank) ∧
      ∃ before c', behindBlank.perform .tokens = (.tokens (before ++ [Token.endOfLine]), c') ∧
        before.length ≤ 2 := by
  have h : Reached false ['1', '.', ' '] behindBlank :=
    .perform _ (.perform _ (.perform _ .start))
  obtain ⟨hat, -, -, hiff, hstay, before, c', ht, -, hlength⟩ := perform_in_bounds h .advance
  have hanswer : (behindBlank.perform .advance).1 = .exhausted := hiff.mpr ⟨rfl, rfl⟩
  exact ⟨h, hat, Prod.ext hanswer (hstay hanswer), before, c', ht, hlength⟩

end Cursor

end LineCalc
