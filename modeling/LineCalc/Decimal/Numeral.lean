import LineCalc.Decimal.Nearest
import LineCalc.Text.Blank
import LineCalc.Text.Digit

/-!
# LineCalc.Decimal.Numeral

Reading a numeral.  The form is wider than the numbers of an expression:

```
numeral  := spaces [sign] (decimal | word) spaces
decimal  := (digits [. digits?] | . digits) [(e | E) [sign] digits]
word     := inf | infinity | nan          (in any case)
```

The digits are those of any script, and single underscores may stand between
two of them.  The value is rounded correctly whatever the length.
-/

namespace LineCalc.Decimal

open Text

/-! ## digits -/

/-- Whether a character is an ASCII digit. -/
def isPlainDigit (c : Char) : Bool := '0' ≤ c && c ≤ '9'

/-- The digits at the front of a text, and the rest of it. -/
def spanDigits (cs : List Char) : List Char × List Char := cs.span isPlainDigit

/-- The number whose digits are `whole`, a decimal point and `fraction`, times a power of ten. -/
def ofDigits (whole fraction : List Char) (exponent : Int) : Decimal :=
  ⟨Nat.ofDigitChars 10 (whole ++ fraction) 0, exponent - fraction.length⟩

/-- Whether a text begins with a minus sign, and what follows its sign. -/
def splitSign : List Char → Bool × List Char
  | '-' :: cs => (true, cs)
  | '+' :: cs => (false, cs)
  | cs => (false, cs)

/-- The exponent that ends a number: nothing, or a mark with a sign and digits. -/
def exponent? : List Char → Option Int
  | [] => some 0
  | c :: cs =>
    if c = 'e' || c = 'E' then
      match splitSign cs with
      | (negative, digits) =>
        if digits.isEmpty || !digits.all isPlainDigit then none
        else
          let e : Int := Nat.ofDigitChars 10 digits 0
          some (if negative then -e else e)
    else none

/-- The decimal that a text without a sign stands for.  There must be a digit before the point or
after it. -/
def decimal? (cs : List Char) : Option Decimal :=
  let (whole, rest) := spanDigits cs
  let (fraction, rest) :=
    match rest with
    | '.' :: rest => spanDigits rest
    | _ => ([], rest)
  if whole.isEmpty && fraction.isEmpty then none
  else (exponent? rest).map (ofDigits whole fraction)

example : decimal? ['1', '2', '.', '5', 'e', '-', '3'] = some ⟨125, -4⟩ := by decide +kernel

example : decimal? ['.'] = none ∧ decimal? ['1', 'e'] = none := by decide +kernel

/-! ## numerals -/

/-- A character as a numeral is read: white space of any kind is a space, and a digit of any
script is the ASCII digit of the same value. -/
def plain (c : Char) : Char := if isSpace c then ' ' else asciiDigit c

/-- A text without its underscores, each of which has to stand between two digits;
`afterDigit` says whether the character before the text is a digit. -/
def dropUnderscores? (afterDigit : Bool) : List Char → Option (List Char)
  | [] => some []
  | c :: cs =>
    if c = '_' then
      if afterDigit && cs.head?.any isPlainDigit then dropUnderscores? false cs else none
    else (dropUnderscores? (isPlainDigit c) cs).map (c :: ·)

example : dropUnderscores? false ['1', '_', '0'] = some ['1', '0'] ∧
    dropUnderscores? false ['1', '_', '_', '0'] = none ∧ dropUnderscores? false ['1', '_'] = none :=
  ⟨rfl, rfl, rfl⟩

/-- A text without the spaces at its two ends. -/
def trim (cs : List Char) : List Char :=
  ((cs.dropWhile (· = ' ')).reverse.dropWhile (· = ' ')).reverse

/-- The words for the doubles that are not finite, in any mix of cases. -/
def word? (cs : List Char) : Option Float :=
  let word := cs.map Char.toLower
  if word = ['i', 'n', 'f'] || word = ['i', 'n', 'f', 'i', 'n', 'i', 't', 'y'] then
    some Binary64.posInfinity
  else if word = ['n', 'a', 'n'] then some Binary64.notANumber
  else none

/-- The double that a numeral without spaces stands for. -/
def signed? (cs : List Char) : Option Float :=
  match splitSign cs with
  | (negative, body) =>
    match decimal? body with
    | some d => some (d.toDouble negative)
    | none => (word? body).map fun x => if negative then -x else x

/-- The double that a text stands for, with digits of any script, underscores between digits, and
white space around it. -/
def numeral? (cs : List Char) : Option Float :=
  (dropUnderscores? false (cs.map plain)).bind fun text => signed? (trim text)

end LineCalc.Decimal
