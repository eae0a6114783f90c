import LineCalc.Decimal.Shortest

/-!
# LineCalc.Decimal.Layout

The text of a double.  Its digits are those of the shortest decimal number
that reads back; a `Layout` says how they are arranged.  The *leading
exponent*, the power of ten of the first digit, decides between the
positional form, which always shows a decimal point, and the form with an
exponent, which shows a point only between digits.
-/

namespace LineCalc.Decimal

open Binary64

/-- How decimals are written: when with an exponent, and how the doubles that are not finite. -/
structure Layout where
  /-- Leading exponents below this one are written as an exponent. -/
  positionalFrom : Int
  /-- Leading exponents from this one on are written as an exponent. -/
  positionalBefore : Int
  exponentWidth : Nat
  notANumber : List Char
  infinite : List Char

namespace Layout

/-- Numbers inside a message: positional below `10^16` and down to `0.0001`, and an exponent has
two digits at least. -/
def message : Layout := ⟨-4, 16, 2, ['n', 'a', 'n'], ['i', 'n', 'f']⟩

/-- Numbers in a document: as in a message, with the longer words. -/
def document : Layout :=
  { message with
    notANumber := ['N', 'a', 'N']
    infinite := ['I', 'n', 'f', 'i', 'n', 'i', 't', 'y'] }

/-- The digits with a decimal point after the first `point` of them; zeros fill the gap between
the point and the digits, and an empty fraction is a zero. -/
def positional (digits : List Char) (point : Int) : List Char :=
  if point ≤ 0 then '0' :: '.' :: (List.replicate (-point).toNat '0' ++ digits)
  else if point < digits.length then
    digits.take point.toNat ++ '.' :: digits.drop point.toNat
  else digits ++ List.replicate (point.toNat - digits.length) '0' ++ ['.', '0']

/-- An exponent with its sign and at least so many digits. -/
def exponentText (width : Nat) (e : Int) : List Char :=
  'e' :: (if e < 0 then '-' else '+') :: (Nat.toDigits 10 e.natAbs).leftpad width '0'

/-- The digits with a point after the first, unless it is the only one. -/
def mantissa : List Char → List Char
  | d :: e :: ds => d :: '.' :: e :: ds
  | ds => ds

/-- A decimal, with or without an exponent by where its first digit stands. -/
def writeDecimal (l : Layout) (d : Decimal) : List Char :=
  let digits := Nat.toDigits 10 d.digits
  let point : Int := if d.digits = 0 then 1 else digits.length + d.exponent
  if l.positionalFrom < point && point ≤ l.positionalBefore then positional digits point
  else mantissa digits ++ exponentText l.exponentWidth (point - 1)

/-- The magnitude of a double that is a number. -/
def writeMagnitude (l : Layout) (n : Nat) : List Char :=
  if n < infinity then l.writeDecimal (shortest n) else l.infinite

/-- The sign of a text: nothing for the positive one. -/
def withSign (negative : Bool) (text : List Char) : List Char :=
  if negative then '-' :: text else text

/-- The text of a double; zeros keep their sign. -/
def write (l : Layout) (x : Float) : List Char :=
  if infinity < pattern x then l.notANumber
  else withSign (isNegative x) (l.writeMagnitude (pattern x))

example : message.writeDecimal ⟨15, 299⟩ = ['1', '.', '5', 'e', '+', '3', '0', '0'] := by
  decide +kernel

example : message.writeDecimal ⟨1, -5⟩ = ['1', 'e', '-', '0', '5'] := by decide +kernel

example : message.writeDecimal ⟨1, -4⟩ = ['0', '.', '0', '0', '0', '1'] := by decide +kernel

example : message.writeDecimal ⟨12, 1⟩ = ['1', '2', '0', '.', '0'] := by decide +kernel

end Layout

/-! ## results -/

/-- Whole numbers below this one are displayed without a fraction. -/
def displayBound : Nat := Nat.pow 10 16

/-- A result as the calculator displays it: a whole number below `10^16` as an integer with its
sign, and any other double as a document has it. -/
def display (x : Float) : List Char :=
  match whole? x with
  | some k =>
    if k < displayBound then Layout.withSign (isNegative x) (Nat.toDigits 10 k)
    else Layout.document.write x
  | none => Layout.document.write x

end LineCalc.Decimal
