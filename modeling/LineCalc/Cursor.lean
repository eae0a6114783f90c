import LineCalc.Text.Blank
import LineCalc.Text.Digit
import LineCalc.Token

/-!
# LineCalc.Cursor

A line cut into tokens.  A cursor parts the line in three: the characters
before the *mark*, those taken since the mark, which make up the next lexeme,
and the rest.  Blanks part tokens and belong to none; a number is

```
digits [. digits?]
```

or, where a point has to be followed by a digit, `digits [. digits]`; six
signs are tokens by themselves; and any other character is an error token of
its own, so that every line can be cut.  `Cursor.tokens` cuts the whole rest
and ends with the one end-of-line token.
-/

namespace LineCalc

open Text

/-- A place in a line, with a mark at or before it. -/
structure Cursor where
  /-- Whether the digits of a number may end in a bare point. -/
  trailingDot : Bool
  /-- The characters before the mark, the last one first. -/
  passed : List Char
  /-- The characters from the mark to the cursor, the last one first. -/
  taken : List Char
  rest : List Char

namespace Cursor

/-- The cursor at the beginning of a line. -/
def start (trailingDot : Bool) (source : List Char) : Cursor := ⟨trailingDot, [], [], source⟩

/-! ## where a cursor is -/

/-- How many characters are before the mark. -/
def markPlace (c : Cursor) : Nat := c.passed.length

/-- How many characters are before the cursor. -/
def place (c : Cursor) : Nat := c.passed.length + c.taken.length

/-- The line that a cursor stands in. -/
def source (c : Cursor) : List Char := c.passed.reverse ++ (c.taken.reverse ++ c.rest)

/-- The characters from the mark to the cursor. -/
def lexeme (c : Cursor) : List Char := c.taken.reverse

/-- A token of what lies between mark and cursor. -/
def token (c : Cursor) (k : Kind) : Token := ⟨k, c.lexeme⟩

/-- Whether no character is left. -/
def isAtEnd (c : Cursor) : Bool := c.rest.isEmpty

/-- The next character, if there is one. -/
def peek (c : Cursor) : Option Char := c.rest.head?

/-- The character after the next one, if there is one. -/
def peekNext (c : Cursor) : Option Char := c.rest.tail.head?

/-! ## moves -/

/-- The mark set to where the cursor is. -/
def mark (c : Cursor) : Cursor := { c with passed := c.taken ++ c.passed, taken := [] }

/-- Past the next character. -/
def step (c : Cursor) (h : c.rest ≠ []) : Cursor :=
  { c with taken := c.rest.head h :: c.taken, rest := c.rest.tail }

/-- Past the characters that come next and are of one class. -/
def stepWhile (p : Char → Bool) (c : Cursor) : Cursor :=
  { c with taken := (c.rest.takeWhile p).reverse ++ c.taken, rest := c.rest.dropWhile p }

/-- Past the blanks that come next. -/
def skipBlanks (c : Cursor) : Cursor := c.stepWhile isBlank

/-- Past the digits that come next. -/
def digits (c : Cursor) : Cursor := c.stepWhile isDigit

/-- Past the next character if it is, by itself, the text expected. -/
def accept (expected : List Char) (c : Cursor) : Bool × Cursor :=
  match h : c.rest with
  | ch :: _ => if expected = [ch] then (true, c.step (by simp [h])) else (false, c)
  | [] => (false, c)

/-! ### a move changes the place in a line, never the line -/

/-- To set the mark is to move no character. -/
@[simp] theorem source_mark (c : Cursor) : c.mark.source = c.source := by
  simp [mark, source]

/-- A character passed is still one of the line. -/
@[simp] theorem source_step (c : Cursor) (h : c.rest ≠ []) : (c.step h).source = c.source := by
  simp [step, source]

/-- So are all the characters passed at once. -/
@[simp] theorem source_stepWhile (p : Char → Bool) (c : Cursor) :
    (c.stepWhile p).source = c.source := by
  simp only [stepWhile, source, List.reverse_append, List.reverse_reverse, List.append_assoc,
    List.takeWhile_append_dropWhile]

/-! ## tokens -/

/-- Whether a point comes next that belongs to the number before it. -/
def atPoint (c : Cursor) : Bool :=
  c.peek = some '.' && (c.trailingDot || c.peekNext.any isDigit)

/-- Where a point comes next, something does. -/
theorem rest_ne_nil_of_atPoint {c : Cursor} (h : c.atPoint = true) : c.rest ≠ [] := by
  intro he
  simp [atPoint, peek, he] at h

/-- Past the digits, the point and the fraction that come next. -/
def skipNumber (c : Cursor) : Cursor :=
  let c := c.digits
  if h : c.atPoint then (c.step (rest_ne_nil_of_atPoint h)).digits else c

/-- The number up to the end of the digits that come next; it begins at the mark. -/
def number (c : Cursor) : Token × Cursor :=
  let c := c.skipNumber
  (c.token .number, c)

/-- The token that begins with a character just taken. -/
def tokenFrom (ch : Char) (c : Cursor) : Token × Cursor :=
  match Kind.ofChar? ch with
  | some k => (c.token k, c)
  | none => if isDigit ch then c.number else (c.token .error, c)

/-- The token that begins at the mark, which is that of the end if no character is left. -/
def tokenHere (c : Cursor) : Token × Cursor :=
  match h : c.rest with
  | [] => (c.token .eof, c)
  | ch :: _ => tokenFrom ch (c.step (by simp [h]))

/-- The next token: past the blanks, and with the mark at its beginning. -/
def next (c : Cursor) : Token × Cursor := c.skipBlanks.mark.tokenHere

/-! ## a token takes at least one character, unless it is the last -/

/-- No more is left than before. -/
theorem length_rest_stepWhile (p : Char → Bool) (c : Cursor) :
    (c.stepWhile p).rest.length ≤ c.rest.length :=
  (List.dropWhile_sublist p).length_le

/-- A step takes a character. -/
theorem length_rest_step (c : Cursor) (h : c.rest ≠ []) :
    (c.step h).rest.length < c.rest.length := by
  have := List.length_pos_iff.mpr h
  simp only [step, List.length_tail]
  omega

/-- A number may be empty, so that it takes no character. -/
theorem length_rest_skipNumber (c : Cursor) : c.skipNumber.rest.length ≤ c.rest.length := by
  have hd := length_rest_stepWhile isDigit c
  simp only [skipNumber]
  split
  · exact Nat.le_trans (length_rest_stepWhile isDigit _)
      (Nat.le_trans (Nat.le_of_lt (length_rest_step _ _)) hd)
  · exact hd

/-- After its first character a token may take no more. -/
theorem length_rest_tokenFrom (ch : Char) (c : Cursor) :
    (tokenFrom ch c).2.rest.length ≤ c.rest.length := by
  unfold tokenFrom
  split
  · exact Nat.le_refl _
  · split
    · exact length_rest_skipNumber c
    · exact Nat.le_refl _

/-- A token takes a character unless it is that of the end. -/
theorem length_rest_tokenHere (c : Cursor) (h : c.tokenHere.1.kind ≠ .eof) :
    c.tokenHere.2.rest.length < c.rest.length := by
  unfold tokenHere at h ⊢
  split
  · next he =>
    split at h
    · simp [token] at h
    · next he' => simp [he] at he'
  · next ch cs he =>
    exact Nat.lt_of_le_of_lt (length_rest_tokenFrom ch _) (length_rest_step _ _)

/-- So does one with the blanks before it. -/
theorem length_rest_next (c : Cursor) (h : c.next.1.kind ≠ .eof) :
    c.next.2.rest.length < c.rest.length :=
  Nat.lt_of_lt_of_le (length_rest_tokenHere _ h) (length_rest_stepWhile isBlank c)

/-- The tokens up to the end of the line; `read` holds those before, the last one first. -/
def tokensAfter (read : List Token) (c : Cursor) : List Token × Cursor :=
  match h : c.next with
  | (t, c') =>
    if ht : t.kind = .eof then ((t :: read).reverse, c')
    else
      have : c'.rest.length < c.rest.length := by
        have := length_rest_next c (by rw [h]; exact ht)
        rwa [h] at this
      tokensAfter (t :: read) c'
termination_by c.rest.length

/-- All tokens from here on, the last of them that of the end. -/
def tokens (c : Cursor) : List Token × Cursor := c.tokensAfter []

/-! ## operations by name -/

/-- The operations of a scanner. -/
inductive Op where
  | tokens
  | next
  | number
  | token (k : Kind)
  | mark
  | peek
  | peekNext
  | advance
  | accept (expected : List Char)
  | skipBlanks
  | isAtEnd

/-- What an operation gives back. -/
inductive Answer where
  | tokens (ts : List Token)
  | token (t : Token)
  | char (c : Option Char)
  | truth (b : Bool)
  | done
  /-- No character is left to take. -/
  | exhausted

/-- An operation by its name.  Only to take a character where none is left goes wrong, and that
leaves the cursor as it is. -/
def perform (op : Op) (c : Cursor) : Answer × Cursor :=
  match op with
  | .tokens => (.tokens c.tokens.1, c.tokens.2)
  | .next => (.token c.next.1, c.next.2)
  | .number => (.token c.number.1, c.number.2)
  | .token k => (.token (c.token k), c)
  | .mark => (.done, c.mark)
  | .peek => (.char c.peek, c)
  | .peekNext => (.char c.peekNext, c)
  | .advance => if h : c.rest = [] then (.exhausted, c) else (.char c.peek, c.step h)
  | .accept expected => (.truth (c.accept expected).1, (c.accept expected).2)
  | .skipBlanks => (.done, c.skipBlanks)
  | .isAtEnd => (.truth c.isAtEnd, c)

end Cursor

/-- The tokens of a line. -/
def tokensOf (trailingDot : Bool) (source : List Char) : List Token :=
  (Cursor.start trailingDot source).tokens.1

end LineCalc
