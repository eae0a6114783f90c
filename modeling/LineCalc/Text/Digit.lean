/-!
# LineCalc.Text.Digit

Decimal digits of every script: the characters of general category `Nd` in
Unicode 14.0.  They come in runs of ten, from the digit zero to the digit
nine of a script, so the table is the list of the zeros, and the value of a
digit is its distance from the zero of its run.
-/

namespace LineCalc.Text

/-- The digit zero of each run of ten, ascending. -/
def digitZeros : List Nat :=
  [0x0030, 0x0660, 0x06F0, 0x07C0, 0x0966, 0x09E6, 0x0A66, 0x0AE6, 0x0B66, 0x0BE6, 0x0C66,
   0x0CE6, 0x0D66, 0x0DE6, 0x0E50, 0x0ED0, 0x0F20, 0x1040, 0x1090, 0x17E0, 0x1810, 0x1946,
   0x19D0, 0x1A80, 0x1A90, 0x1B50, 0x1BB0, 0x1C40, 0x1C50, 0xA620, 0xA8D0, 0xA900, 0xA9D0,
   0xA9F0, 0xAA50, 0xABF0, 0xFF10, 0x104A0, 0x10D30, 0x11066, 0x110F0, 0x11136, 0x111D0,
   0x112F0, 0x11450, 0x114D0, 0x11650, 0x116C0, 0x11730, 0x118E0, 0x11950, 0x11C50, 0x11D50,
   0x11DA0, 0x16A60, 0x16AC0, 0x16B50, 0x1D7CE, 0x1D7D8, 0x1D7E2, 0x1D7EC, 0x1D7F6, 0x1E140,
   0x1E2F0, 0x1E950, 0x1FBF0]

/-- The place of a code point in its run of ten, if one of the zeros opens such a run. -/
def placeIn (n : Nat) : List Nat → Option Nat
  | [] => none
  | z :: zs => if n < z then none else if n < z + 10 then some (n - z) else placeIn n zs

/-- The value of a digit of any script. -/
def digitValue? (c : Char) : Option Nat := placeIn c.toNat digitZeros

/-- Whether a character is a digit of some script. -/
def isDigit (c : Char) : Bool := (digitValue? c).isSome

/-- The ASCII digit of the same value for a digit of any script; every other character itself. -/
def asciiDigit (c : Char) : Char :=
  match digitValue? c with
  | some d => Nat.digitChar d
  | none => c

/-- A run has ten places. -/
theorem placeIn_lt_ten {n d : Nat} {zeros : List Nat} (h : placeIn n zeros = some d) : d < 10 := by
  induction zeros with
  | nil => simp [placeIn] at h
  | cons z zs ih =>
    simp only [placeIn] at h
    split at h
    · simp at h
    · split at h
      · simp only [Option.some.injEq] at h; omega
      · exact ih h

/-- The value of a digit is below ten. -/
theorem digitValue?_lt_ten {c : Char} {d : Nat} (h : digitValue? c = some d) : d < 10 :=
  placeIn_lt_ten h

end LineCalc.Text
