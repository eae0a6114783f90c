import LineCalc.Binary64

/-!
# LineCalc.Json.Basic

Values of the JSON data model, as settings hold them and reports are made of
them.  Whole numbers are exact and kept apart from doubles, and the fields of
an object keep their order.
-/

namespace LineCalc

/-- JSON values.  Whole numbers are kept apart from doubles, and an object keeps the order of its
fields. -/
inductive Json where
  | null
  | bool (b : Bool)
  | int (n : Int)
  | real (x : Float)
  | text (s : String)
  | list (items : List Json)
  | object (fields : List (String × Json))

namespace Json

instance : Inhabited Json := ⟨null⟩

/-- The value of a name in a list of fields; of several the last counts. -/
def fieldIn? (name : String) (fields : List (String × Json)) : Option Json :=
  fields.reverse.lookup name

/-- The field of an object that has a name. -/
def get? (name : String) : Json → Option Json
  | object fields => fieldIn? name fields
  | _ => none

/-- A value that is a text. -/
def text? : Json → Option String
  | text s => some s
  | _ => none

/-- Whether a value counts as a yes: neither null, false, a zero nor empty. -/
def holds : Json → Bool
  | null => false
  | bool b => b
  | int n => n != 0
  | real x => Binary64.pattern x != 0
  | text s => !s.isEmpty
  | list items => !items.isEmpty
  | object fields => !fields.isEmpty

end Json

end LineCalc
