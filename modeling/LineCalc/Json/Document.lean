import LineCalc.Decimal.Layout
import LineCalc.Json.Basic
import LineCalc.Text.Quoted

/-!
# LineCalc.Json.Document

A JSON value as a document of many lines: each item and each field on a line
of its own, two spaces deeper than the brackets around it.  The document is
ASCII throughout; every other character of a text is given by its UTF-16
units, so a character beyond the basic plane takes two escapes.
-/

namespace LineCalc.Json

open Text

/-! ## texts -/

/-- A code unit of UTF-16 by its four hexadecimal digits. -/
def unitEscape (u : Nat) : List Char := '\\' :: 'u' :: hexDigits 4 u

/-- The UTF-16 units of a code point: one in the basic plane, a surrogate pair beyond it. -/
def utf16 (n : Nat) : List Nat :=
  if n < 0x10000 then [n]
  else [0xD800 + (n - 0x10000) / 0x400, 0xDC00 + (n - 0x10000) % 0x400]

/-- The letter of a control character that has an escape of its own. -/
def controlLetter? (c : Char) : Option Char :=
  if c = '\x08' then some 'b'
  else if c = '\t' then some 't'
  else if c = '\n' then some 'n'
  else if c = '\x0c' then some 'f'
  else if c = '\r' then some 'r'
  else none

/-- A character between quotation marks.  What is not ASCII is written by its code units. -/
def escapeChar (c : Char) : List Char :=
  if c = doubleMark || c = '\\' then ['\\', c]
  else if ' ' ≤ c && c ≤ '~' then [c]
  else
    match controlLetter? c with
    | some letter => ['\\', letter]
    | none => (utf16 c.toNat).flatMap unitEscape

/-- A text between quotation marks. -/
def writeText (s : String) : List Char :=
  doubleMark :: (s.toList.flatMap escapeChar ++ [doubleMark])

/-! ## values -/

/-- The beginning of a line, two spaces in for every level. -/
def newLine (depth : Nat) : List Char := '\n' :: List.replicate (2 * depth) ' '

/-- A whole number. -/
def writeInt (n : Int) : List Char :=
  Decimal.Layout.withSign (n < 0) (Nat.toDigits 10 n.natAbs)

mutual

/-- A value at a depth.  Every item and field stands on a line of its own, one level further in. -/
def writeAt (depth : Nat) : Json → List Char
  | null => ['n', 'u', 'l', 'l']
  | bool true => ['t', 'r', 'u', 'e']
  | bool false => ['f', 'a', 'l', 's', 'e']
  | int n => writeInt n
  | real x => Decimal.Layout.document.write x
  | text s => writeText s
  | list [] => ['[', ']']
  | list (v :: vs) =>
    '[' :: (newLine (depth + 1) ++ writeAt (depth + 1) v ++ writeItems (depth + 1) vs ++
      newLine depth ++ [']'])
  | object [] => ['\x7b', '\x7d']
  | object ((k, v) :: fs) =>
    '\x7b' :: (newLine (depth + 1) ++ writeText k ++ ':' :: ' ' :: writeAt (depth + 1) v ++
      writeFields (depth + 1) fs ++ newLine depth ++ ['\x7d'])

/-- The items after the first one, each after a comma. -/
def writeItems (depth : Nat) : List Json → List Char
  | [] => []
  | v :: vs => ',' :: (newLine depth ++ writeAt depth v ++ writeItems depth vs)

/-- The fields after the first one, each after a comma. -/
def writeFields (depth : Nat) : List (String × Json) → List Char
  | [] => []
  | (k, v) :: fs =>
    ',' :: (newLine depth ++ writeText k ++ ':' :: ' ' :: writeAt depth v ++
      writeFields depth fs)

end

/-- A value as a document, without a line break at the end. -/
def document (v : Json) : String := String.ofList (writeAt 0 v)

end LineCalc.Json
