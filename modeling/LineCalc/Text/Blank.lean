import LineCalc.Text.Ranges

/-!
# LineCalc.Text.Blank

White space, in two widths.  Between the tokens of a line every *blank* is
skipped: the characters with the property `White_Space`, and the four
information separators U+001C to U+001F, whose bidirectional class makes
them separators too.  Around a numeral only `White_Space` itself counts.
-/

namespace LineCalc.Text

/-- The characters with the property `White_Space`. -/
def spaceRanges : Ranges :=
  [(0x09, 0x0D), (0x20, 0x20), (0x85, 0x85), (0xA0, 0xA0), (0x1680, 0x1680),
   (0x2000, 0x200A), (0x2028, 0x2029), (0x202F, 0x202F), (0x205F, 0x205F), (0x3000, 0x3000)]

/-- The table is one that a lookup can trust. -/
theorem ascending_spaceRanges : spaceRanges.Ascending := by decide

/-- The information separators, from the file separator to the unit separator. -/
def separatorRanges : Ranges := [(0x1C, 0x1F)]

/-- So is this one. -/
theorem ascending_separatorRanges : separatorRanges.Ascending := by decide

/-- White space in the sense of the Unicode property. -/
def isSpace (c : Char) : Bool := spaceRanges.contains c.toNat

/-- White space that parts tokens: `isSpace` and the information separators. -/
def isBlank (c : Char) : Bool := isSpace c || separatorRanges.contains c.toNat

-- the zero-width space is none
example : isBlank '\u200B' = false := rfl

/-- The characters that end a line: the line feed and its kin, three of the information
separators, and the two separators of lines and paragraphs. -/
def lineBreakRanges : Ranges :=
  [(0x0A, 0x0D), (0x1C, 0x1E), (0x85, 0x85), (0x2028, 0x2029)]

/-- And this one. -/
theorem ascending_lineBreakRanges : lineBreakRanges.Ascending := by decide

/-- Whether a character ends a line. -/
def isLineBreak (c : Char) : Bool := lineBreakRanges.contains c.toNat

/-- Every line break is also a blank. -/
theorem isBlank_of_isLineBreak {c : Char} (h : isLineBreak c = true) : isBlank c = true := by
  simp only [isLineBreak, lineBreakRanges, Ranges.contains, Bool.and_eq_true, Bool.or_eq_true,
    decide_eq_true_eq, Bool.or_false] at h
  simp only [isBlank, isSpace, spaceRanges, separatorRanges, Ranges.contains, Bool.and_eq_true,
    Bool.or_eq_true, decide_eq_true_eq]
  omega

end LineCalc.Text
