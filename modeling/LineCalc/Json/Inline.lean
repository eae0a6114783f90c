import LineCalc.Decimal.Layout
import LineCalc.Json.Basic
import LineCalc.Text.Quoted

/-!
# LineCalc.Json.Inline

A JSON value inside a message, on one line: words with a capital letter for
the constants, texts between quotation marks, numbers as a message has them.
-/

namespace LineCalc.Json

open Text

mutual

/-- A value on one line. -/
def inlined : Json → List Char
  | null => ['N', 'o', 'n', 'e']
  | bool true => ['T', 'r', 'u', 'e']
  | bool false => ['F', 'a', 'l', 's', 'e']
  | int n => Decimal.Layout.withSign (n < 0) (Nat.toDigits 10 n.natAbs)
  | real x => Decimal.Layout.message.write x
  | text s => quoted s.toList
  | list [] => ['[', ']']
  | list (v :: vs) => '[' :: (inlined v ++ inlinedItems vs ++ [']'])
  | object [] => ['\x7b', '\x7d']
  | object ((k, v) :: fs) =>
    '\x7b' :: (quoted k.toList ++ ':' :: ' ' :: inlined v ++ inlinedFields fs ++ ['\x7d'])

/-- The items after the first one, each after a comma. -/
def inlinedItems : List Json → List Char
  | [] => []
  | v :: vs => ',' :: ' ' :: (inlined v ++ inlinedItems vs)

/-- The fields after the first one, each after a comma. -/
def inlinedFields : List (String × Json) → List Char
  | [] => []
  | (k, v) :: fs =>
    ',' :: ' ' :: (quoted k.toList ++ ':' :: ' ' :: inlined v ++ inlinedFields fs)

end

/-- A value for use inside a message. -/
def inline (v : Json) : String := String.ofList v.inlined

end LineCalc.Json
