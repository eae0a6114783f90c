import LineCalc.Decimal.Numeral
import LineCalc.Text.Quoted

/-!
# LineCalc.Token

The tokens of a line: a kind, and the piece of text that the token was made
from.  The lexeme of a number is also what its value is read from.
-/

namespace LineCalc

/-- The kinds of tokens. -/
inductive Kind where
  | openParen
  | closeParen
  | plus
  | minus
  | star
  | slash
  | number
  /-- A character that no token begins with. -/
  | error
  /-- The end of the line. -/
  | eof
  deriving DecidableEq

namespace Kind

/-- The name of a kind, as it is printed. -/
def label : Kind → String
  | openParen => "OPEN_PAREN"
  | closeParen => "CLOSE_PAREN"
  | plus => "PLUS"
  | minus => "MINUS"
  | star => "STAR"
  | slash => "SLASH"
  | number => "NUMBER"
  | error => "ERROR"
  | eof => "EOF"

/-- What stands for a kind: its sign, or a word for the kinds without one. -/
def symbol : Kind → List Char
  | openParen => ['(']
  | closeParen => [')']
  | plus => ['+']
  | minus => ['-']
  | star => ['*']
  | slash => ['/']
  | number => ['n', 'u', 'm', 'b', 'e', 'r']
  | error => ['e', 'r', 'r', 'o', 'r']
  | eof => ['e', 'o', 'f']

/-- The name of a kind with that of its type. -/
def fullName (k : Kind) : String := "TokenKind." ++ k.label

/-- The kind of a character that is a token by itself. -/
def ofChar? (c : Char) : Option Kind :=
  if c = '(' then some openParen
  else if c = ')' then some closeParen
  else if c = '+' then some plus
  else if c = '-' then some minus
  else if c = '*' then some star
  else if c = '/' then some slash
  else none

/-- The kind of a name. -/
def ofLabel? (s : String) : Option Kind :=
  [openParen, closeParen, plus, minus, star, slash, number, error, eof].find? (·.label = s)

/-- The names of the kinds tell them apart. -/
theorem ofLabel?_label (k : Kind) : ofLabel? k.label = some k := by cases k <;> rfl

/-- A character is a token by itself exactly if it is the sign of that kind. -/
theorem symbol_of_ofChar? {c : Char} {k : Kind} (h : ofChar? c = some k) : k.symbol = [c] := by
  simp only [ofChar?] at h
  repeat' split at h
  all_goals simp_all
  all_goals subst h; rfl

end Kind

/-- A token.  The lexeme is the piece of text that it was made from. -/
structure Token where
  kind : Kind
  lexeme : List Char
  deriving DecidableEq

/-- Why a token has no value. -/
inductive ValueFault where
  /-- The token is of another kind than a number. -/
  | notNumber (t : Token)
  /-- The lexeme is no numeral. -/
  | notNumeral (lexeme : List Char)

namespace Token

/-- The token after the last character of a line. -/
def endOfLine : Token := ⟨.eof, []⟩

/-- A token as it is printed on a line. -/
def line (t : Token) : String :=
  "Type: " ++ t.kind.label ++ ", lexeme: " ++ String.ofList t.lexeme

/-- A token as messages show it. -/
def describe (t : Token) : String :=
  if t.kind = .eof then "end of input" else Text.quote t.lexeme

/-- The value of a number. -/
def value (t : Token) : Except ValueFault Float :=
  if t.kind = .number then
    match Decimal.numeral? t.lexeme with
    | some x => .ok x
    | none => .error (.notNumeral t.lexeme)
  else .error (.notNumber t)

end Token

namespace ValueFault

/-- The text of the error. -/
def message : ValueFault → String
  | notNumber t => "Token is not a number: " ++ t.line
  | notNumeral lexeme => "could not convert string to float: " ++ Text.quote lexeme

end ValueFault

end LineCalc
