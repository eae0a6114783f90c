import LineCalc.Cursor

/-!
# LineCalc.Lexeme

The form of lexemes, said without a cursor.  `isNumber` and `Token.isValid`
are predicates on texts and tokens; `Cuts` relates a line to its tokens: runs
of blanks part the lexemes, and each number is the longest that is there.
`spaced` is the way back, a line made of tokens with blanks between them.
-/

namespace LineCalc

open Text

/-! ## numbers -/

/-- Digits, then possibly a point and digits; with `trailingDot` the latter may be missing. -/
def isNumberBody (trailingDot : Bool) (cs : List Char) : Bool :=
  match cs.dropWhile isDigit with
  | [] => true
  | '.' :: fraction => fraction.all isDigit && (trailingDot || !fraction.isEmpty)
  | _ => false

/-- A number of an expression: it begins with a digit. -/
def isNumber (trailingDot : Bool) (cs : List Char) : Bool :=
  cs.head?.any isDigit && isNumberBody trailingDot cs

/-- A text is the longest at the front of another that a predicate holds of. -/
structure LongestFront (p : List Char → Bool) (front cs : List Char) : Prop where
  front_of : front <+: cs
  holds : p front = true
  longest : ∀ other, other <+: cs → p other = true → other.length ≤ front.length

example : isNumber true ['1', '.'] = true ∧ isNumber false ['1', '.'] = false := ⟨rfl, rfl⟩

example : isNumberBody false ['.', '5'] = true ∧ isNumber false ['.', '5'] = false :=
  ⟨rfl, rfl⟩

/-! ## tokens -/

/-- A character that is a token by itself, and an error. -/
def isStray (c : Char) : Bool := !isBlank c && !isDigit c && (Kind.ofChar? c).isNone

/-- Whether a kind and a lexeme fit together in the tokens of a line before its end. -/
def Token.isValid (trailingDot : Bool) (t : Token) : Bool :=
  match t.kind with
  | .number => isNumber trailingDot t.lexeme
  | .error =>
    match t.lexeme with
    | [c] => isStray c
    | _ => false
  | .eof => false
  | k => t.lexeme = k.symbol

/-- A line is made of tokens: blanks, then a lexeme, and so on up to the end of the line. -/
inductive Cuts (trailingDot : Bool) : List Char → List Token → Prop where
  | finish {blanks : List Char} : blanks.all isBlank = true →
      Cuts trailingDot blanks [Token.endOfLine]
  | token {blanks rest : List Char} {t : Token} {ts : List Token} :
      blanks.all isBlank = true → t.isValid trailingDot = true →
      (t.kind = .number → LongestFront (isNumber trailingDot) t.lexeme (t.lexeme ++ rest)) →
      Cuts trailingDot rest ts → Cuts trailingDot (blanks ++ t.lexeme ++ rest) (t :: ts)

/-! ## back to a line -/

/-- The lexemes of tokens, each after a text of its own. -/
def spaced : List (List Char × Token) → List Char
  | [] => []
  | (blanks, t) :: ts => blanks ++ t.lexeme ++ spaced ts

/-- The text of tokens that follow each other without a gap. -/
def lexemes (ts : List Token) : List Char := ts.flatMap Token.lexeme

/-- The text of the first token, and that of the rest. -/
@[simp] theorem lexemes_cons (t : Token) (ts : List Token) :
    lexemes (t :: ts) = t.lexeme ++ lexemes ts := rfl

/-- The tokens of a line hold all of it but the blanks. -/
theorem Cuts.lexemes_filter {trailingDot : Bool} {cs : List Char} {ts : List Token}
    (h : Cuts trailingDot cs ts) :
    (lexemes ts).filter (!isBlank ·) = cs.filter (!isBlank ·) := by
  have skip : ∀ blanks : List Char, blanks.all isBlank = true →
      blanks.filter (!isBlank ·) = [] := by
    intro blanks hb
    simp only [List.filter_eq_nil_iff]
    intro c hc
    simp [List.all_eq_true.mp hb c hc]
  induction h with
  | finish hb => simp [lexemes, Token.endOfLine, skip _ hb]
  | token hb _ _ _ ih => simp [skip _ hb, ih]

end LineCalc
