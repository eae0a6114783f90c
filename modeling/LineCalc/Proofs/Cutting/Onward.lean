import LineCalc.Proofs.Cutting.Steps
import LineCalc.Proofs.Cutting.Uniqueness

/-!
# LineCalc.Proofs.Cutting.Onward

Cutting a line from a cursor on.  No operation changes the line or the form of
its numbers (`Cursor.Moves`), and the tokens that a cursor finds are those of
the rest of its line, wherever its mark is (`Cursor.tokens_eq`).  Taking them
one at a time gives the same tokens, and after the last of them the end of the
line again and again (`Cursor.nexts_eq`).  So what a line is cut into from a
place on does not depend on the operations that have led there:
`Cursor.tokens_onward`.
-/

namespace LineCalc

open Text

namespace Cursor

variable {trailingDot : Bool} {source : List Char} {c c' c'' : Cursor}

/-! ## moves within a line -/

/-- The second cursor is in the same line, and neither it nor its mark is further back. -/
structure Moves (c c' : Cursor) : Prop where
  trailingDot : c'.trailingDot = c.trailingDot
  source : c'.source = c.source
  markPlace_le : c.markPlace ≤ c'.markPlace
  place_le : c.place ≤ c'.place

namespace Moves

theorem refl (c : Cursor) : Moves c c := ⟨rfl, rfl, Nat.le_refl _, Nat.le_refl _⟩

theorem trans (h : Moves c c') (h' : Moves c' c'') : Moves c c'' where
  trailingDot := h'.trailingDot.trans h.trailingDot
  source := h'.source.trans h.source
  markPlace_le := Nat.le_trans h.markPlace_le h'.markPlace_le
  place_le := Nat.le_trans h.place_le h'.place_le

end Moves

/-- One step moves the cursor forward or leaves it. -/
theorem Step.moves (h : Step c c') : Moves c c' := by
  cases h with
  | take h => exact ⟨rfl, source_step c h, Nat.le_refl _, by simp [place, step]⟩
  | mark =>
      refine ⟨rfl, source_mark c, by simp [markPlace, Cursor.mark], ?_⟩
      simp only [place, Cursor.mark, List.length_append, List.length_nil]
      omega

/-- What one step keeps, all steps keep. -/
theorem Steps.moves (h : Steps c c') : Moves c c' := by
  induction h with
  | refl => exact .refl _
  | tail _ hstep ih => exact ih.trans hstep.moves

/-! ## the tokens from a cursor on -/

/-- What is left to read is the source behind the place. -/
theorem rest_eq_drop (c : Cursor) : c.rest = c.source.drop c.place := by
  rw [source, ← List.append_assoc]
  exact (List.drop_left' (by simp [place])).symm

/-- The mark and what is before the cursor make no difference to the tokens. -/
theorem tokens_eq (c : Cursor) : c.tokens.1 = tokensOf c.trailingDot c.rest := by
  obtain ⟨ts, hts, hcuts⟩ := exists_tokensAfter [] c
  rw [tokens, hts]
  exact hcuts.unique (cuts_tokensOf c.trailingDot c.rest)

/-- The tokens already read only stand in front of the others. -/
theorem tokensAfter_eq (read : List Token) (c : Cursor) :
    c.tokensAfter read = (read.reverse ++ c.tokens.1, c.tokens.2) := by
  by_cases hk : c.next.1.kind = .eof
  · rw [tokens, tokensAfter_of_eof read hk, tokensAfter_of_eof [] hk]
    simp
  · have := c.length_rest_next hk
    rw [tokens, tokensAfter_of_ne_eof read hk, tokensAfter_of_ne_eof [] hk,
      tokensAfter_eq (c.next.1 :: read), tokensAfter_eq [c.next.1]]
    simp
termination_by c.rest.length

/-- The end of the line is found where only blanks are left, which are passed. -/
theorem next_of_eof (h : c.next.1.kind = .eof) :
    c.next.1 = Token.endOfLine ∧ c.next.2.rest = [] ∧ c.next.2.taken = [] := by
  obtain ⟨hb, ht⟩ | ⟨blanks, ht⟩ := c.next_cases
  · have hrest : c.skipBlanks.mark.rest = [] := by
      show c.rest.dropWhile isBlank = []
      simpa using hb
    refine ⟨ht, ?_⟩
    rw [next, tokenHere_of_nil hrest]
    exact ⟨hrest, rfl⟩
  · exact absurd h (ne_eof_of_isValid ht.valid)

/-- Behind the end of the line a scan gives the end token alone. -/
theorem tokens_of_eof (h : c.next.1.kind = .eof) : c.tokens = ([Token.endOfLine], c.next.2) := by
  rw [tokens, tokensAfter_of_eof [] h, (next_of_eof h).1]
  rfl

/-- A scan is one step and the scan from where it stopped. -/
theorem tokens_of_ne_eof (h : c.next.1.kind ≠ .eof) :
    c.tokens = (c.next.1 :: c.next.2.tokens.1, c.next.2.tokens.2) := by
  rw [tokens, tokensAfter_of_ne_eof [] h, tokensAfter_eq]
  rfl

/-- All the tokens lead to the end of the line, with the mark there. -/
theorem moves_tokens (c : Cursor) :
    Moves c c.tokens.2 ∧ c.tokens.2.rest = [] ∧ c.tokens.2.taken = [] := by
  by_cases hk : c.next.1.kind = .eof
  · rw [tokens_of_eof hk]
    exact ⟨(Steps.next c).moves, (next_of_eof hk).2⟩
  · have := c.length_rest_next hk
    obtain ⟨hmoves, hend⟩ := moves_tokens c.next.2
    rw [tokens_of_ne_eof hk]
    exact ⟨(Steps.next c).moves.trans hmoves, hend⟩
termination_by c.rest.length

/-- At the end of its line a cursor has passed all of it, and so has its mark. -/
theorem place_of_end (hr : c.rest = []) (ht : c.taken = []) :
    c.markPlace = c.source.length ∧ c.place = c.source.length := by
  simp [markPlace, place, source, hr, ht]

/-! ## one token at a time -/

/-- The next `k` tokens, one after another, and the cursor after them. -/
def nexts : Nat → Cursor → List Token × Cursor
  | 0, c => ([], c)
  | k + 1, c => (c.next.1 :: (nexts k c.next.2).1, (nexts k c.next.2).2)

/-- With nothing left to read a scan gives the end token alone. -/
theorem tokens_of_rest_eq_nil (h : c.rest = []) : c.tokens.1 = [Token.endOfLine] := by
  rw [tokens_eq, h]
  exact (cuts_tokensOf c.trailingDot []).unique (.finish rfl)

/-- Tokens taken one at a time are those taken at once, then the end of the line as often as it is
asked for; what is left to take at once are the others, or the end of the line. -/
theorem nexts_eq (k : Nat) (c : Cursor) :
    (c.nexts k).1 = c.tokens.1.take k ++
        List.replicate (k - c.tokens.1.length) Token.endOfLine ∧
      (c.nexts k).2.tokens.1 =
        if k < c.tokens.1.length then c.tokens.1.drop k else [Token.endOfLine] := by
  induction k generalizing c with
  | zero =>
      have hpos : 0 < c.tokens.1.length := by
        by_cases hk : c.next.1.kind = .eof
        · simp [tokens_of_eof hk]
        · simp [tokens_of_ne_eof hk]
      simp [nexts, hpos]
  | succ k ih =>
      obtain ⟨hfirst, hrest⟩ := ih c.next.2
      rw [nexts]
      by_cases hk : c.next.1.kind = .eof
      · obtain ⟨hend, hnil, -⟩ := next_of_eof hk
        rw [tokens_of_rest_eq_nil hnil] at hfirst hrest
        simp only [hfirst, hrest, hend, tokens_of_eof hk]
        cases k <;> simp [List.replicate_succ]
      · simp only [hfirst, hrest, tokens_of_ne_eof hk, List.take_succ_cons, List.drop_succ_cons,
          List.length_cons, Nat.add_sub_add_right, Nat.add_lt_add_iff_right, List.cons_append]
        exact ⟨trivial, trivial⟩

/-! ## after any operations -/

/-- A cursor that operations lead to from the start of a line. -/
inductive Reached (trailingDot : Bool) (source : List Char) : Cursor → Prop where
  | start : Reached trailingDot source (.start trailingDot source)
  | perform {c : Cursor} (op : Op) : Reached trailingDot source c →
      Reached trailingDot source (c.perform op).2

/-- No operation moves the cursor or its mark back. -/
theorem moves_perform (op : Op) (c : Cursor) : Moves c (c.perform op).2 :=
  (steps_perform op c).moves

/-- A reachable cursor lies ahead of the start of the line. -/
theorem Reached.moves (h : Reached trailingDot source c) :
    Moves (.start trailingDot source) c := by
  induction h with
  | start => exact .refl _
  | perform op _ ih => exact ih.trans (moves_perform op _)

/-- Whatever operations have led to a place, the tokens from there are those that the rest of the
line is cut into by itself.  To take them all leaves cursor and mark at the end of the line; to
take `k` of them gives the first `k`, then the end of the line each time, and leaves the others to
be taken at once. -/
theorem tokens_onward (h : Reached trailingDot source c) :
    c.tokens.1 = tokensOf trailingDot (source.drop c.place) ∧
      (c.tokens.2.markPlace = source.length ∧ c.tokens.2.place = source.length) ∧
      ∀ k,
        (c.nexts k).1 = c.tokens.1.take k ++
            List.replicate (k - c.tokens.1.length) Token.endOfLine ∧
          (c.nexts k).2.tokens.1 =
            if k < c.tokens.1.length then c.tokens.1.drop k else [Token.endOfLine] := by
  have hmoves := h.moves
  have hline : c.source = source := hmoves.source.trans (by simp [start, Cursor.source])
  have hform : c.trailingDot = trailingDot := hmoves.trailingDot
  refine ⟨?_, ?_, fun k => nexts_eq k c⟩
  · rw [tokens_eq, rest_eq_drop, hline, hform]
  · obtain ⟨hto, hrest, htaken⟩ := moves_tokens c
    have hend := place_of_end hrest htaken
    rwa [hto.source, hline] at hend

/-- In `1.2.3` past the first point, with the mark still at the start. -/
def pastPoint : Cursor :=
  (((start true ['1', '.', '2', '.', '3']).perform .advance).2.perform (.accept ['.'])).2

/-- What is ahead is `2.3`, not a number with `1.` before it. -/
theorem tokens_onward_pastPoint :
    Reached true ['1', '.', '2', '.', '3'] pastPoint ∧
      (pastPoint.markPlace = 0 ∧ pastPoint.place = 2) ∧
      pastPoint.tokens.1 = [⟨.number, ['2', '.', '3']⟩, .endOfLine] ∧
      (pastPoint.nexts 3).1 = [⟨.number, ['2', '.', '3']⟩, .endOfLine, .endOfLine] := by
  have hreached : Reached true ['1', '.', '2', '.', '3'] pastPoint :=
    .perform _ (.perform _ .start)
  have hplace : pastPoint.place = 2 := rfl
  have hwhole : LongestFront (isNumber true) ['2', '.', '3'] (['2', '.', '3'] ++ []) :=
    ⟨List.prefix_append _ _, rfl, fun _ hp _ => hp.length_le⟩
  have hcuts : Cuts true ['2', '.', '3'] [⟨.number, ['2', '.', '3']⟩, .endOfLine] :=
    @Cuts.token true [] [] ⟨.number, ['2', '.', '3']⟩ _ rfl rfl (fun _ => hwhole) (.finish rfl)
  obtain ⟨htokens, -, hnexts⟩ := tokens_onward hreached
  rw [hplace] at htokens
  have hahead : pastPoint.tokens.1 = [⟨.number, ['2', '.', '3']⟩, .endOfLine] :=
    htokens.trans ((cuts_tokensOf _ _).unique hcuts)
  refine ⟨hreached, ⟨rfl, hplace⟩, hahead, ?_⟩
  rw [(hnexts 3).1, hahead]
  rfl

end Cursor

end LineCalc
