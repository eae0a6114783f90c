/-!
# LineCalc.Text.Ranges

Sets of characters as ascending closed ranges of code points.  The character
classes of the library (`LineCalc.Text.Blank`, `LineCalc.Text.Digit`,
`LineCalc.Text.Printable`) are tables of Unicode 14.0 in this form, and a
lookup stops at the first range that begins beyond the character asked for.
That it misses nothing there rests on `Ranges.Ascending`, which is checked of
each table beside it.
-/

namespace LineCalc.Text

/-- Closed ranges of code points, ascending and apart. -/
abbrev Ranges := List (Nat × Nat)

namespace Ranges

/-- Whether a code point is in one of the ranges, up to the first that begins beyond it. -/
def contains (n : Nat) : Ranges → Bool
  | [] => false
  | (first, last) :: rs => first ≤ n && (n ≤ last || contains n rs)

/-- The ranges ascend and no two of them touch. -/
def Ascending : Ranges → Prop
  | [] => True
  | [r] => r.1 ≤ r.2
  | r :: s :: rs => r.1 ≤ r.2 ∧ r.2 + 1 < s.1 ∧ Ascending (s :: rs)

/-- Ascent is checked from the front, one range against the next. -/
instance decidableAscending : (rs : Ranges) → Decidable rs.Ascending
  | [] => isTrue trivial
  | [r] => inferInstanceAs (Decidable (r.1 ≤ r.2))
  | r :: s :: rs =>
    have := decidableAscending (s :: rs)
    inferInstanceAs (Decidable (r.1 ≤ r.2 ∧ r.2 + 1 < s.1 ∧ Ascending (s :: rs)))

end Ranges

end LineCalc.Text
