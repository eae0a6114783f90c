import LineCalc.Proofs.Cutting.Tokens
import Mathlib.Logic.Relation

/-!
# LineCalc.Proofs.Cutting.Steps

The operations on a cursor, a step at a time.  A step takes the next character,
which has to be there, or sets the mark; and every operation, the loops over
blanks, digits and tokens among them, is some steps and then no more
(`Cursor.steps_perform`).  So what a step keeps, every operation keeps.
-/

namespace LineCalc

open Text

namespace Cursor

variable {front more : List Char} {c c' : Cursor}

/-- A character taken, or the mark set. -/
inductive Step : Cursor → Cursor → Prop where
  | take {c : Cursor} (h : c.rest ≠ []) : Step c (c.step h)
  | mark (c : Cursor) : Step c c.mark

/-- The second cursor is some steps after the first. -/
abbrev Steps : Cursor → Cursor → Prop := Relation.ReflTransGen Step

namespace Steps

theorem take (h : c.rest ≠ []) : Steps c (c.step h) := .single (.take h)

theorem mark (c : Cursor) : Steps c c.mark := .single (.mark c)

/-- A passage takes its characters one by one. -/
theorem past (h : c.rest = front ++ more) : Steps c (c.past front more) := by
  induction front generalizing c with
  | nil =>
      obtain rfl : c.rest = more := h
      exact .refl
  | cons ch front ih =>
      have hne : c.rest ≠ [] := by simp [h]
      have hstep : c.step hne = c.past [ch] (front ++ more) := step_eq_past h hne
      have hmore : Steps (c.step hne) ((c.step hne).past front more) := ih (by rw [hstep]; rfl)
      rw [hstep, past_past, ← hstep] at hmore
      exact (take hne).trans hmore

/-- Skipping the blanks takes a step at each of them. -/
theorem skipBlanks (c : Cursor) : Steps c c.skipBlanks :=
  past (List.takeWhile_append_dropWhile).symm

/-- An accepted character is taken in one step, another in none. -/
theorem accept (expected : List Char) (c : Cursor) : Steps c (c.accept expected).2 := by
  unfold Cursor.accept
  split
  · split
    · exact take _
    · exact .refl
  · exact .refl

/-- Reading a number takes a step at each of its characters. -/
theorem number (c : Cursor) : Steps c c.number.2 := by
  obtain ⟨more, hrest, hskip⟩ := exists_skipNumber c
  show Steps c c.skipNumber
  rw [hskip]
  exact past hrest

/-- Reading a token behind the blanks is a run of steps. -/
theorem tokenHere (c : Cursor) : Steps c c.tokenHere.2 := by
  cases hc : c.rest with
  | nil => rw [tokenHere_of_nil hc]
  | cons ch cs =>
      have hfirst : Steps c (c.past [ch] cs) := past hc
      rw [tokenHere_of_cons hc, tokenFrom]
      split
      · exact hfirst
      · split
        · exact hfirst.trans (number _)
        · exact hfirst

/-- Reading a token is a run of steps. -/
theorem next (c : Cursor) : Steps c c.next.2 :=
  ((skipBlanks c).trans (mark _)).trans (tokenHere _)

/-- A scan is a run of steps. -/
theorem tokensAfter (read : List Token) (c : Cursor) : Steps c (c.tokensAfter read).2 := by
  by_cases hk : c.next.1.kind = .eof
  · rw [tokensAfter_of_eof read hk]
    exact next c
  · have := c.length_rest_next hk
    rw [tokensAfter_of_ne_eof read hk]
    exact (next c).trans (tokensAfter _ c.next.2)
termination_by c.rest.length

end Steps

/-- Every operation is some steps. -/
theorem steps_perform (op : Op) (c : Cursor) : Steps c (c.perform op).2 := by
  cases op with
  | tokens => exact .tokensAfter [] c
  | next => exact .next c
  | number => exact .number c
  | token _ | peek | peekNext | isAtEnd => exact .refl
  | mark => exact .mark c
  | advance =>
      simp only [perform]
      split
      · exact .refl
      · exact .take _
  | accept expected => exact .accept expected c
  | skipBlanks => exact .skipBlanks c

end Cursor

end LineCalc
