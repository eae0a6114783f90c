import LineCalc.Decimal.Numeral
import LineCalc.Json.Document

/-!
# LineCalc.Json.Reader

Reading a JSON text by the grammar of the standard: no word for a number
that is not finite, no control character inside a text, no comma too many,
and nothing but white space around the value.  A number with a point or an
exponent is a double, any other a whole number.  A text that holds half of a
surrogate pair has no reading.
-/

namespace LineCalc.Json

open Text Decimal

/-- The four characters that may stand between the parts of a document. -/
def isGap (c : Char) : Bool := c = ' ' || c = '\t' || c = '\n' || c = '\r'

/-- A text without the white space at its front. -/
def skipGap (cs : List Char) : List Char := cs.dropWhile isGap

/-- What follows a word at the front of a text. -/
def after? : List Char → List Char → Option (List Char)
  | [], cs => some cs
  | p :: ps, c :: cs => if p = c then after? ps cs else none
  | _ :: _, [] => none

/-! ## texts -/

/-- The value of a hexadecimal digit of either case. -/
def hexValue? (c : Char) : Option Nat :=
  if '0' ≤ c && c ≤ '9' then some (c.toNat - '0'.toNat)
  else if 'a' ≤ c && c ≤ 'f' then some (c.toNat - 'a'.toNat + 10)
  else if 'A' ≤ c && c ≤ 'F' then some (c.toNat - 'A'.toNat + 10)
  else none

/-- The value of four hexadecimal digits. -/
def hexUnit? (a b c d : Char) : Option Nat := do
  let a ← hexValue? a
  let b ← hexValue? b
  let c ← hexValue? c
  let d ← hexValue? d
  return ((a * 16 + b) * 16 + c) * 16 + d

/-- The character that a letter after a backslash stands for. -/
def letterValue? (c : Char) : Option Nat :=
  if c = doubleMark || c = '\\' || c = '/' then some c.toNat
  else if c = 'b' then some 0x08
  else if c = 'f' then some 0x0C
  else if c = 'n' then some 0x0A
  else if c = 'r' then some 0x0D
  else if c = 't' then some 0x09
  else none

/-- The next unit of a text: a character by its code point, or one escape. -/
def unit? : List Char → Option (Nat × List Char)
  | '\\' :: 'u' :: a :: b :: c :: d :: cs => (hexUnit? a b c d).map (·, cs)
  | '\\' :: c :: cs => (letterValue? c).map (·, cs)
  | ['\\'] => none
  | c :: cs => if c < ' ' then none else some (c.toNat, cs)
  | [] => none

/-- The units up to the closing mark, and what follows it; `read` holds those before, the last
one first, and the first argument bounds their count. -/
def units? : Nat → List Nat → List Char → Option (List Nat × List Char)
  | 0, _, _ => none
  | fuel + 1, read, cs =>
    match cs with
    | [] => none
    | c :: rest =>
      if c = doubleMark then some (read.reverse, rest)
      else
        match unit? cs with
        | some (u, rest) => units? fuel (u :: read) rest
        | none => none

/-- The characters of a list of units, in which surrogates come in pairs. -/
def joinUnits? (read : List Char) : List Nat → Option (List Char)
  | [] => some read.reverse
  | u :: us =>
    if 0xD800 ≤ u && u < 0xDC00 then
      match us with
      | v :: vs =>
        if 0xDC00 ≤ v && v < 0xE000 then
          joinUnits? (Char.ofNat (0x10000 + (u - 0xD800) * 0x400 + (v - 0xDC00)) :: read) vs
        else none
      | [] => none
    else if 0xDC00 ≤ u && u < 0xE000 then none
    else joinUnits? (Char.ofNat u :: read) us

/-- A text after its opening mark; the first argument bounds its length. -/
def readText? (fuel : Nat) (cs : List Char) : Option (String × List Char) := do
  let (us, rest) ← units? fuel [] cs
  return (String.ofList (← joinUnits? [] us), rest)

/-! ## numbers -/

/-- The digits before the point: at least one, and no zero in front of another. -/
def wholePart? (cs : List Char) : Option (List Char × List Char) :=
  match spanDigits cs with
  | ([], _) => none
  | ('0' :: _ :: _, _) => none
  | parts => some parts

/-- The digits of a fraction, and the rest of the text.  A point must have digits after it. -/
def fractionPart? : List Char → Option (List Char × List Char)
  | '.' :: cs =>
    match spanDigits cs with
    | ([], _) => none
    | parts => some parts
  | cs => some ([], cs)

/-- The exponent at the front of a text, if there is one, and the rest. -/
def exponentPart? : List Char → Option (Option Int × List Char)
  | [] => some (none, [])
  | c :: cs =>
    if c = 'e' || c = 'E' then
      let (negative, cs) := splitSign cs
      match spanDigits cs with
      | ([], _) => none
      | (digits, rest) =>
        let e : Int := Nat.ofDigitChars 10 digits 0
        some (some (if negative then -e else e), rest)
    else some (none, c :: cs)

/-- A number after its sign.  It is whole if it has neither fraction nor exponent. -/
def readMagnitude? (negative : Bool) (cs : List Char) : Option (Json × List Char) := do
  let (whole, rest) ← wholePart? cs
  let (fraction, rest) ← fractionPart? rest
  let (e, rest) ← exponentPart? rest
  match fraction, e with
  | [], none =>
    let n : Int := Nat.ofDigitChars 10 whole 0
    return (int (if negative then -n else n), rest)
  | _, _ => return (real ((ofDigits whole fraction (e.getD 0)).toDouble negative), rest)

/-- A number, which may have a minus sign. -/
def readNumber? : List Char → Option (Json × List Char)
  | '-' :: cs => readMagnitude? true cs
  | cs => readMagnitude? false cs

/-! ## values -/

/-- One of the three words. -/
def readWord? (cs : List Char) : Option (Json × List Char) :=
  ((after? ['n', 'u', 'l', 'l'] cs).map (null, ·)).or <|
    ((after? ['t', 'r', 'u', 'e'] cs).map (bool true, ·)).or <|
      (after? ['f', 'a', 'l', 's', 'e'] cs).map (bool false, ·)

mutual

/-- A value, and what follows it; the first argument bounds the steps. -/
def readValue? : Nat → List Char → Option (Json × List Char)
  | 0, _ => none
  | fuel + 1, cs =>
    match skipGap cs with
    | [] => none
    | c :: rest =>
      if c = '[' then
        match skipGap rest with
        | ']' :: rest => some (list [], rest)
        | rest => readItems? fuel [] rest
      else if c = '\x7b' then
        match skipGap rest with
        | '\x7d' :: rest => some (object [], rest)
        | rest => readFields? fuel [] rest
      else if c = doubleMark then (readText? fuel rest).map fun (s, rest) => (text s, rest)
      else if c = '-' || isPlainDigit c then readNumber? (c :: rest)
      else readWord? (c :: rest)

/-- The items of a list up to its bracket; `read` holds those before, the last one first. -/
def readItems? : Nat → List Json → List Char → Option (Json × List Char)
  | 0, _, _ => none
  | fuel + 1, read, cs =>
    match readValue? fuel cs with
    | none => none
    | some (v, rest) =>
      match skipGap rest with
      | ',' :: rest => readItems? fuel (v :: read) rest
      | ']' :: rest => some (list (v :: read).reverse, rest)
      | _ => none

/-- The fields of an object up to its brace; `read` holds those before, the last one first. -/
def readFields? : Nat → List (String × Json) → List Char → Option (Json × List Char)
  | 0, _, _ => none
  | fuel + 1, read, cs =>
    match skipGap cs with
    | c :: rest =>
      if c = doubleMark then
        match readText? fuel rest with
        | none => none
        | some (k, rest) =>
          match skipGap rest with
          | ':' :: rest =>
            match readValue? fuel rest with
            | none => none
            | some (v, rest) =>
              match skipGap rest with
              | ',' :: rest => readFields? fuel ((k, v) :: read) rest
              | '\x7d' :: rest => some (object ((k, v) :: read).reverse, rest)
              | _ => none
          | _ => none
      else none
    | [] => none

end

/-- The value that a text stands for.  There may be white space around it and nothing else. -/
def read? (cs : List Char) : Option Json :=
  match readValue? (2 * cs.length + 1) cs with
  | some (v, rest) => if (skipGap rest).isEmpty then some v else none
  | none => none

end LineCalc.Json
