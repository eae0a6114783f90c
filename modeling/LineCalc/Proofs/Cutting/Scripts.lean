import LineCalc.Proofs.Cutting.Spacing
import LineCalc.Proofs.Cutting.TrailingDot
import LineCalc.Proofs.Decimal.Numeral

/-!
# LineCalc.Proofs.Cutting.Scripts

Lines whose digits are of any script.  `Text.inAscii` puts the ASCII digit of
the same value in the place of every digit.  No character changes its class
by that, and what is no digit stays what it is.  So the line is cut at the
same places into tokens of the same kinds (`tokensOf_inAscii`), and a numeral
keeps its value: `Decimal.numeral?_inAscii`.
-/

namespace LineCalc

open Text

variable {trailingDot : Bool} {cs front : List Char} {ts : List Token} {t : Token} {c : Char}

/-! ## characters -/

namespace Text

/-- Writing a digit in ASCII keeps its value. -/
theorem digitValue?_asciiDigit (c : Char) : digitValue? (asciiDigit c) = digitValue? c := by
  have hvalue : ∀ d < 10, digitValue? (Nat.digitChar d) = some d := by decide
  unfold asciiDigit
  split
  · next d hd => rw [hvalue d (digitValue?_lt_ten hd), hd]
  · rfl

/-- Writing a character in ASCII makes no digit and loses none. -/
theorem isDigit_asciiDigit (c : Char) : isDigit (asciiDigit c) = isDigit c := by
  rw [isDigit, digitValue?_asciiDigit, isDigit]

/-- Only digits are written anew. -/
theorem asciiDigit_eq_self (h : isDigit c = false) : asciiDigit c = c := by
  rw [isDigit, Option.isSome_eq_false_iff, Option.isNone_iff_eq_none] at h
  rw [asciiDigit, h]

/-- What does not tell digits from each other does not tell a digit from the one in ASCII. -/
theorem apply_asciiDigit {α : Type} {g : Char → α} {a : α} (hg : ∀ c, isDigit c = true → g c = a)
    (c : Char) : g (asciiDigit c) = g c := by
  cases h : isDigit c with
  | true => rw [hg c h, hg _ ((isDigit_asciiDigit c).trans h)]
  | false => rw [asciiDigit_eq_self h]

theorem isBlank_asciiDigit (c : Char) : isBlank (asciiDigit c) = isBlank c :=
  apply_asciiDigit (fun _ => isBlank_eq_false) c

theorem isSpace_asciiDigit (c : Char) : isSpace (asciiDigit c) = isSpace c :=
  apply_asciiDigit (fun _ => isSpace_eq_false) c

/-- Only a point is written as a point. -/
theorem asciiDigit_eq_point_iff : asciiDigit c = '.' ↔ c = '.' := by
  have hpoint : ∀ d, isDigit d = true → decide (d = '.') = false := by
    intro d hd
    refine decide_eq_false fun h => ?_
    simp [h, isDigit_point] at hd
  simpa using apply_asciiDigit hpoint c

/-- Writing a character in ASCII keeps the sign it is. -/
theorem ofChar?_asciiDigit (c : Char) : Kind.ofChar? (asciiDigit c) = Kind.ofChar? c := by
  have hnone : ∀ d, isDigit d = true → Kind.ofChar? d = none := by
    intro d hd
    cases hk : Kind.ofChar? d with
    | none => rfl
    | some k => simp [(Kind.apart_of_ofChar? hk).2] at hd
  exact apply_asciiDigit hnone c

/-- A text with every digit in ASCII. -/
def inAscii (cs : List Char) : List Char := cs.map asciiDigit

example : inAscii ['٣', '.', '৪', 'x'] = ['3', '.', '4', 'x'] := by decide

end Text

/-! ## numerals -/

namespace Decimal

/-- The decimal reader sees a digit and its ASCII form alike. -/
theorem plain_asciiDigit (c : Char) : plain (asciiDigit c) = plain c := by
  have hdigit : asciiDigit (asciiDigit c) = asciiDigit c := by
    cases h : isDigit c with
    | true => rw [asciiDigit, digitValue?_asciiDigit, asciiDigit]; split <;> rfl
    | false => rw [asciiDigit_eq_self h, asciiDigit_eq_self h]
  rw [plain, plain, isSpace_asciiDigit, hdigit]

/-- The script of its digits has no part in the value of a numeral. -/
theorem numeral?_inAscii (cs : List Char) : numeral? (inAscii cs) = numeral? cs := by
  have hplain : plain ∘ asciiDigit = plain := funext plain_asciiDigit
  rw [numeral?, inAscii, List.map_map, hplain, numeral?]

end Decimal

/-! ## numbers of a line -/

theorem isNumberBody_inAscii (trailingDot : Bool) (cs : List Char) :
    isNumberBody trailingDot (inAscii cs) = isNumberBody trailingDot cs := by
  have hdigit : isDigit ∘ asciiDigit = isDigit := funext isDigit_asciiDigit
  rw [isNumberBody, inAscii, List.dropWhile_map, hdigit, isNumberBody]
  cases cs.dropWhile isDigit with
  | nil => rfl
  | cons c fraction =>
      by_cases hc : c = '.'
      · rw [List.map_cons, asciiDigit_eq_point_iff.mpr hc, hc]
        simp [List.all_map, hdigit]
      · have hc' := mt asciiDigit_eq_point_iff.mp hc
        simp [hc, hc']

/-- A text is a number exactly when its ASCII form is one. -/
theorem isNumber_inAscii (trailingDot : Bool) (cs : List Char) :
    isNumber trailingDot (inAscii cs) = isNumber trailingDot cs := by
  have hhead : (inAscii cs).head?.any isDigit = cs.head?.any isDigit := by
    cases cs with
    | nil => rfl
    | cons c cs => exact isDigit_asciiDigit c
  rw [isNumber, hhead, isNumberBody_inAscii, isNumber]

/-- The longest number at the front is found at the same place in the ASCII form. -/
theorem LongestFront.inAscii (h : LongestFront (isNumber trailingDot) front cs) :
    LongestFront (isNumber trailingDot) (inAscii front) (inAscii cs) where
  front_of := h.front_of.map asciiDigit
  holds := (isNumber_inAscii trailingDot front).trans h.holds
  longest := by
    intro other hother hn
    obtain ⟨l, hl, rfl⟩ := List.prefix_map_iff.mp hother
    have hn' : isNumber trailingDot l = true := (isNumber_inAscii trailingDot l).symm.trans hn
    simpa [Text.inAscii] using h.longest l hl hn'

/-! ## tokens -/

namespace Token

/-- A token of the same kind with another lexeme. -/
def mapLexeme (f : List Char → List Char) (t : Token) : Token := { t with lexeme := f t.lexeme }

/-- The ASCII form of a lexical token is lexical. -/
theorem Lexical.inAscii (h : t.Lexical trailingDot) :
    (t.mapLexeme Text.inAscii).Lexical trailingDot := by
  cases h with
  | @sign c k hk => exact .sign ((ofChar?_asciiDigit c).trans hk)
  | number hp =>
      have hdigit : ∀ c, isDigit c = true → isDigit (asciiDigit c) = true :=
        fun c hc => (isDigit_asciiDigit c).trans hc
      exact .number (hp.map hdigit (asciiDigit_eq_point_iff.mpr rfl))
  | @stray c hb hd hk =>
      exact .stray ((isBlank_asciiDigit c).trans hb) ((isDigit_asciiDigit c).trans hd)
        ((ofChar?_asciiDigit c).trans hk)

theorem isValid_inAscii (h : t.isValid trailingDot = true) :
    (t.mapLexeme Text.inAscii).isValid trailingDot = true :=
  lexical_iff_isValid.mp (lexical_iff_isValid.mpr h).inAscii

end Token

/-- A line in ASCII digits is cut at the same places. -/
theorem Cuts.inAscii (h : Cuts trailingDot cs ts) :
    Cuts trailingDot (Text.inAscii cs) (ts.map (Token.mapLexeme Text.inAscii)) := by
  have hblank : ∀ blanks : List Char, blanks.all isBlank = true →
      (Text.inAscii blanks).all isBlank = true := by
    intro blanks hb
    rwa [Text.inAscii, List.all_map, show isBlank ∘ asciiDigit = isBlank from
      funext isBlank_asciiDigit]
  induction h with
  | finish hb => exact .finish (hblank _ hb)
  | @token blanks rest t ts hb hv hl _ ih =>
      have happend : Text.inAscii (blanks ++ t.lexeme ++ rest) =
          Text.inAscii blanks ++ (t.mapLexeme Text.inAscii).lexeme ++ Text.inAscii rest := by
        simp [Text.inAscii, Token.mapLexeme]
      rw [happend, List.map_cons]
      refine .token (hblank _ hb) (Token.isValid_inAscii hv) (fun hk => ?_) ih
      simpa [Text.inAscii, Token.mapLexeme] using (hl hk).inAscii

/-- Scanning the ASCII form of a line writes the lexemes in ASCII and changes nothing else. -/
theorem tokensOf_inAscii (trailingDot : Bool) (cs : List Char) :
    tokensOf trailingDot (Text.inAscii cs) =
      (tokensOf trailingDot cs).map (Token.mapLexeme Text.inAscii) :=
  (cuts_tokensOf trailingDot _).unique (cuts_tokensOf trailingDot cs).inAscii

end LineCalc
