import LineCalc.Json.Reader

/-!
# LineCalc.Proofs.Json.Grammar

The grammar of JSON texts, together with what a text stands for:

```
value   := null | true | false | number | text | [ items? ] | { fields? }
items   := value (, value)*
fields  := text : value (, text : value)*
number  := [-] whole [. digits] [(e | E) [+ | -] digits]
whole   := 0 | digit1-9 digit*
text    := " (character | escape)* "
escape  := \ letter | \u hex hex hex hex
```

White space may stand between any two of the parts.  A number with a fraction
or an exponent stands for the double nearest to it, any other for a whole
number.  An escape of four hexadecimal digits stands for a unit of UTF-16, so
a character beyond the basic plane is spelled by two of them; half of such a
pair stands for nothing.  The grammar says nothing of how a text is read.
-/

namespace LineCalc.Json

open Text Decimal

/-- Blanks that may stand between the parts of a document. -/
def IsGap (cs : List Char) : Prop := ∀ c ∈ cs, isGap c = true

/-! ## numbers -/

/-- One digit or more. -/
def IsDigits (ds : List Char) : Prop := ds ≠ [] ∧ ∀ d ∈ ds, isPlainDigit d = true

/-- Digits without a zero in front of another. -/
def IsWhole (ds : List Char) : Prop := IsDigits ds ∧ (ds.head? = some '0' → ds = ['0'])

/-- The spelling of a fraction, and its digits. -/
inductive Fraction : List Char → List Char → Prop where
  | absent : Fraction [] []
  | point {ds : List Char} : IsDigits ds → Fraction ('.' :: ds) ds

/-- The spelling of a sign in an exponent, and whether it is negative. -/
inductive ExponentSign : List Char → Bool → Prop where
  | absent : ExponentSign [] false
  | plus : ExponentSign ['+'] false
  | minus : ExponentSign ['-'] true

/-- A whole number with its sign. -/
def signed (negative : Bool) (n : Nat) : Int := if negative then -n else n

/-- The spelling of an exponent, and its value. -/
inductive Exponent : List Char → Option Int → Prop where
  | absent : Exponent [] none
  | mark {mark : Char} {sign ds : List Char} {negative : Bool} : mark = 'e' ∨ mark = 'E' →
      ExponentSign sign negative → IsDigits ds →
      Exponent (mark :: (sign ++ ds)) (some (signed negative (Nat.ofDigitChars 10 ds 0)))

/-! ## texts -/

/-- The letters of the escapes that have one, and the characters they stand for. -/
def escapeLetters : List (Char × Char) :=
  [(doubleMark, doubleMark), ('\\', '\\'), ('/', '/'), ('b', '\x08'), ('f', '\x0c'), ('n', '\n'),
   ('r', '\r'), ('t', '\t')]

/-- The first code unit of a pair. -/
def IsHighSurrogate (u : Nat) : Prop := 0xD800 ≤ u ∧ u < 0xDC00

/-- The second code unit of a pair. -/
def IsLowSurrogate (u : Nat) : Prop := 0xDC00 ≤ u ∧ u < 0xE000

/-- The character beyond the basic plane that a pair of surrogates stands for. -/
def pairValue (u v : Nat) : Char := Char.ofNat (0x10000 + (u - 0xD800) * 0x400 + (v - 0xDC00))

/-- The spelling of a text between its marks, and its characters. -/
inductive Characters : List Char → List Char → Prop where
  | nil : Characters [] []
  | plain {c : Char} {cs s : List Char} : ' ' ≤ c → c ≠ doubleMark → c ≠ '\\' →
      Characters cs s → Characters (c :: cs) (c :: s)
  | letter {p : Char × Char} {cs s : List Char} : p ∈ escapeLetters →
      Characters cs s → Characters ('\\' :: p.1 :: cs) (p.2 :: s)
  | unit {a b c d : Char} {u : Nat} {cs s : List Char} : hexUnit? a b c d = some u →
      ¬ IsHighSurrogate u → ¬ IsLowSurrogate u →
      Characters cs s → Characters ('\\' :: 'u' :: a :: b :: c :: d :: cs) (Char.ofNat u :: s)
  | pair {a b c d a' b' c' d' : Char} {u v : Nat} {cs s : List Char} :
      hexUnit? a b c d = some u → hexUnit? a' b' c' d' = some v →
      IsHighSurrogate u → IsLowSurrogate v → Characters cs s →
      Characters ('\\' :: 'u' :: a :: b :: c :: d :: '\\' :: 'u' :: a' :: b' :: c' :: d' :: cs)
        (pairValue u v :: s)

/-! ## values -/

/-- What a part of a document stands for: a value, or one item or more, or one field or more. -/
inductive Piece where
  | value (v : Json)
  | items (vs : List Json)
  | fields (fs : List (String × Json))

/-- The grammar: a part of a document, and a text that spells it. -/
inductive Spells : Piece → List Char → Prop where
  | null : Spells (.value .null) ['n', 'u', 'l', 'l']
  | yes : Spells (.value (.bool true)) ['t', 'r', 'u', 'e']
  | no : Spells (.value (.bool false)) ['f', 'a', 'l', 's', 'e']
  | whole {ds : List Char} (negative : Bool) : IsWhole ds →
      Spells (.value (.int (signed negative (Nat.ofDigitChars 10 ds 0))))
        (Layout.withSign negative ds)
  | real {ds fs fraction es : List Char} {e : Option Int} (negative : Bool) : IsWhole ds →
      Fraction fs fraction → Exponent es e → fraction ≠ [] ∨ e ≠ none →
      Spells (.value (.real ((ofDigits ds fraction (e.getD 0)).toDouble negative)))
        (Layout.withSign negative (ds ++ fs ++ es))
  | text {cs s : List Char} : Characters cs s →
      Spells (.value (.text (String.ofList s))) (doubleMark :: (cs ++ [doubleMark]))
  | noItems {gap : List Char} : IsGap gap → Spells (.value (.list [])) ('[' :: (gap ++ [']']))
  | list {gap cs : List Char} {vs : List Json} : IsGap gap → Spells (.items vs) cs →
      Spells (.value (.list vs)) ('[' :: (gap ++ cs ++ [']']))
  | noFields {gap : List Char} : IsGap gap →
      Spells (.value (.object [])) ('\x7b' :: (gap ++ ['\x7d']))
  | object {gap cs : List Char} {fs : List (String × Json)} : IsGap gap → Spells (.fields fs) cs →
      Spells (.value (.object fs)) ('\x7b' :: (gap ++ cs ++ ['\x7d']))
  | lastItem {cs gap : List Char} {v : Json} : Spells (.value v) cs → IsGap gap →
      Spells (.items [v]) (cs ++ gap)
  | item {cs gap₁ gap₂ more : List Char} {v : Json} {vs : List Json} : Spells (.value v) cs →
      IsGap gap₁ → IsGap gap₂ → Spells (.items vs) more →
      Spells (.items (v :: vs)) (cs ++ gap₁ ++ ',' :: (gap₂ ++ more))
  | lastField {name gap₁ gap₂ gap₃ cs s : List Char} {v : Json} : Characters name s →
      IsGap gap₁ → IsGap gap₂ → Spells (.value v) cs → IsGap gap₃ →
      Spells (.fields [(String.ofList s, v)])
        (doubleMark :: (name ++ doubleMark :: (gap₁ ++ ':' :: (gap₂ ++ cs ++ gap₃))))
  | field {name gap₁ gap₂ gap₃ gap₄ cs s more : List Char} {v : Json}
      {fs : List (String × Json)} : Characters name s → IsGap gap₁ → IsGap gap₂ →
      Spells (.value v) cs → IsGap gap₃ → IsGap gap₄ → Spells (.fields fs) more →
      Spells (.fields ((String.ofList s, v) :: fs))
        (doubleMark :: (name ++ doubleMark :: (gap₁ ++ ':' :: (gap₂ ++ cs ++ gap₃ ++
          ',' :: (gap₄ ++ more)))))

/-- A document: a value with white space around it. -/
def IsDocument (cs : List Char) (v : Json) : Prop :=
  ∃ gap₁ text gap₂, cs = gap₁ ++ text ++ gap₂ ∧ IsGap gap₁ ∧ IsGap gap₂ ∧ Spells (.value v) text

end LineCalc.Json
