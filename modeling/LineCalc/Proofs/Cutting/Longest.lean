import LineCalc.Proofs.Cutting.Places

/-!
# LineCalc.Proofs.Cutting.Longest

A number from any place of a line.  The rule for numbers does not ask how the
cursor has come to its place, nor whether a digit comes next there: it takes
the longest text that is digits with possibly a point and digits after them,
leaves the mark where it is, and makes a token of all that lies between the two
(`Cursor.number_takes_longest`).
-/

namespace LineCalc

open Text

namespace Cursor

variable {trailingDot : Bool} {text front : List Char} {mark place : Nat} {c : Cursor}

/-- A cursor in a line, with mark and cursor at two places of it. -/
structure Stands (c : Cursor) (trailingDot : Bool) (text : List Char) (mark place : Nat) :
    Prop where
  trailingDot : c.trailingDot = trailingDot
  source : c.source = text
  markPlace : c.markPlace = mark
  place : c.place = place

/-- There is a cursor for any two places of a line in this order. -/
theorem exists_stands (trailingDot : Bool) (hm : mark ≤ place) (hp : place ≤ text.length) :
    ∃ c : Cursor, c.Stands trailingDot text mark place := by
  refine ⟨⟨trailingDot, (text.take mark).reverse, ((text.take place).drop mark).reverse,
    text.drop place⟩, rfl, ?_, ?_, ?_⟩
  · have htake : (text.take place).take mark = text.take mark := by
      rw [List.take_take, Nat.min_eq_left hm]
    simp only [Cursor.source, List.reverse_reverse]
    rw [← List.append_assoc, ← htake, List.take_append_drop, List.take_append_drop]
  · simp only [Cursor.markPlace, List.length_reverse, List.length_take]
    omega
  · simp only [Cursor.place, List.length_reverse, List.length_take, List.length_drop]
    omega

/-- What is left to read is the text behind the place. -/
theorem Stands.rest (h : c.Stands trailingDot text mark place) : c.rest = text.drop place := by
  rw [rest_eq_drop, h.source, h.place]

/-- A passage leaves the mark where it is, and takes the cursor behind the characters passed. -/
theorem Stands.past {more : List Char} (h : c.Stands trailingDot text mark place)
    (hrest : c.rest = front ++ more) :
    (c.past front more).Stands trailingDot text mark (place + front.length) where
  trailingDot := h.trailingDot
  source := by
    rw [← h.source, Cursor.source, Cursor.source, hrest]
    simp [Cursor.past]
  markPlace := h.markPlace
  place := by
    rw [← h.place]
    simp only [Cursor.place, Cursor.past, List.length_append, List.length_reverse]
    omega

/-- The pending lexeme is the text from the mark to the place. -/
theorem Stands.lexeme (h : c.Stands trailingDot text mark place) :
    c.lexeme = (text.take place).drop mark := by
  rw [c.at_places.lexeme, h.source, h.markPlace, h.place]

/-- Reading a number moves the place behind the number's front and leaves the mark alone. -/
theorem Stands.number (h : c.Stands trailingDot text mark place) :
    ∃ c', c.number = (⟨.number, (text.take (place +
        (numberFront trailingDot (text.drop place)).length)).drop mark⟩, c') ∧
      c'.Stands trailingDot text mark
        (place + (numberFront trailingDot (text.drop place)).length) := by
  obtain ⟨more, hrest, hskip⟩ := exists_skipNumber c
  have hpast := h.past hrest
  rw [← hskip, h.trailingDot, h.rest] at hpast
  exact ⟨c.skipNumber, by rw [Cursor.number, token, hpast.lexeme], hpast⟩

/-- Mark and cursor may be at any two places of a line in this order.  What is taken as a number
from there is the one longest text that is digits, or digits, a point and digits, where the digits
before the point may be missing, and those after it too if a number may end in a bare point.  The
mark stays, the cursor is behind what was taken, and the token is all that lies between them. -/
theorem number_takes_longest (trailingDot : Bool) (text : List Char) (hm : mark ≤ place)
    (hp : place ≤ text.length) :
    (∃ c : Cursor, c.Stands trailingDot text mark place) ∧
    (∀ cs, isNumberBody trailingDot cs = true ↔ NumberBody trailingDot cs) ∧
    ∃ front, LongestFront (isNumberBody trailingDot) front (text.drop place) ∧
      (∀ other, LongestFront (isNumberBody trailingDot) other (text.drop place) →
        other = front) ∧
      ∀ c : Cursor, c.Stands trailingDot text mark place → ∃ c',
        c.perform .number =
          (.token ⟨.number, (text.take (place + front.length)).drop mark⟩, c') ∧
        c'.Stands trailingDot text mark (place + front.length) := by
  have hlongest := longestFront_isNumberBody trailingDot (text.drop place)
  refine ⟨exists_stands trailingDot hm hp, fun _ => isNumberBody_iff, _, hlongest,
    fun other ho => ho.unique hlongest, fun c hc => ?_⟩
  obtain ⟨c', hnumber, hc'⟩ := hc.number
  exact ⟨c', by rw [perform, hnumber], hc'⟩

/-- In `a1.5..`, from the first point on and with the mark at the start, where a point has to be
followed by a digit. -/
theorem number_takes_longest_midway :
    0 ≤ 2 ∧ 2 ≤ ['a', '1', '.', '5', '.', '.'].length ∧
      ∃ c c' : Cursor, c.Stands false ['a', '1', '.', '5', '.', '.'] 0 2 ∧
        c.perform .number = (.token ⟨.number, ['a', '1', '.', '5']⟩, c') ∧
        c'.Stands false ['a', '1', '.', '5', '.', '.'] 0 4 := by
  obtain ⟨⟨c, hc⟩, -, front, -, hunique, htaken⟩ :=
    number_takes_longest false ['a', '1', '.', '5', '.', '.'] (show 0 ≤ 2 by decide) (by decide)
  obtain rfl : ['.', '5'] = front :=
    hunique _ (longestFront_isNumberBody false ['.', '5', '.', '.'])
  obtain ⟨c', hnumber, hc'⟩ := htaken c hc
  exact ⟨by decide, by decide, c, c', hc, hnumber, hc'⟩

end Cursor

end LineCalc
