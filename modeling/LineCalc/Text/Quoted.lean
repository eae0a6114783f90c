import LineCalc.Text.Printable

/-!
# LineCalc.Text.Quoted

A text between quotation marks, as messages show it.  The mark is the
apostrophe, or the double quotation mark for a text that holds an apostrophe
and no double mark.  A backslash stands before the mark and before itself,
the line feed, the carriage return and the tabulator have a letter each, and
every other character that is not printable is given by its code point in
lower-case hexadecimal digits: `\xNN`, `\uNNNN` or `\UNNNNNNNN`, the shortest
that holds it.
-/

namespace LineCalc.Text

/-- The mark of a text that holds no apostrophe, or holds both marks. -/
def apostrophe : Char := '\x27'

/-- The mark of a text that holds an apostrophe and no mark of this kind. -/
def doubleMark : Char := '\x22'

/-- The lower-case hexadecimal digits of a number, filled up with zeros to a width. -/
def hexDigits (width n : Nat) : List Char := (Nat.toDigits 16 n).leftpad width '0'

/-- A character by its code point, in two, four or eight hexadecimal digits. -/
def codePointEscape (c : Char) : List Char :=
  if c.toNat < 0x100 then '\\' :: 'x' :: hexDigits 2 c.toNat
  else if c.toNat < 0x10000 then '\\' :: 'u' :: hexDigits 4 c.toNat
  else '\\' :: 'U' :: hexDigits 8 c.toNat

/-- How a character is written between two marks. -/
def escape (mark c : Char) : List Char :=
  if c = mark || c = '\\' then ['\\', c]
  else if c = '\n' then ['\\', 'n']
  else if c = '\r' then ['\\', 'r']
  else if c = '\t' then ['\\', 't']
  else if isPrintable c then [c]
  else codePointEscape c

/-- The mark that a text is put between. -/
def markFor (s : List Char) : Char :=
  if s.contains apostrophe && !s.contains doubleMark then doubleMark else apostrophe

/-- A text with its marks and escapes. -/
def quoted (s : List Char) : List Char :=
  markFor s :: (s.flatMap (escape (markFor s)) ++ [markFor s])

/-- A text with its marks and escapes, for use inside a message. -/
def quote (s : List Char) : String := String.ofList (quoted s)

example : quote ['a', '\n', '\u200b', 'é'] = "'a\\n\\u200bé'" := by decide +kernel

example : quote ['i', 't', apostrophe, 's'] = "\"it's\"" := by decide +kernel

end LineCalc.Text
