import LineCalc.Proofs.Line.Stray
import LineCalc.Proofs.Line.Written

/-!
# LineCalc.Proofs.Line.InOrder

What an expression keeps of its line.  In the order of a line, with every
operator between its operands, an expression holds the lexemes of the tokens
that derive it, but for the parentheses (`Derives.inOrder_eq`).  Its numbers
have the lexemes of numbers and the values of their lexemes
(`Derives.isLexical`).  So nothing of a line is lost, doubled or moved that is
neither white space nor a parenthesis: `Line.inOrder_of_read`.
-/

namespace LineCalc

open Text

variable {depth : Nat} {rank : Rank} {ts : List Token} {t : Token} {e : Expr}
variable {trailingDot : Bool} {s : Settings} {text : List Char}

/-! ## the lexemes of tokens of a line -/

/-- An expression has a trace of the character, if it is in a line. -/
def isCarried (c : Char) : Bool := !isBlank c && c ≠ '(' && c ≠ ')'

namespace Token

/-- A token that is a sign is written as the sign. -/
theorem lexeme_of_sign? {s : Sign} (h : t.isValid trailingDot = true) (hs : t.kind.sign? = some s) :
    t.lexeme = s.kind.symbol := by
  obtain ⟨k, lexeme⟩ := t
  cases k <;> cases hs <;> exact of_decide_eq_true h

/-- A token that is an operator is written as the operator. -/
theorem lexeme_of_operator? {o : Operator} (h : t.isValid trailingDot = true)
    (ho : t.kind.operator? = some o) : t.lexeme = o.kind.symbol := by
  obtain ⟨k, lexeme⟩ := t
  cases k <;> cases ho <;> exact of_decide_eq_true h

/-- The lexeme of a number token is a number. -/
theorem isNumber_lexeme (h : t.isValid trailingDot = true) (hk : t.kind = .number) :
    isNumber trailingDot t.lexeme = true := by
  simpa [isValid, hk] using h

/-- All of a number is carried over into the expression. -/
theorem filter_lexeme_number (h : t.isValid trailingDot = true) (hk : t.kind = .number) :
    t.lexeme.filter isCarried = t.lexeme := by
  refine List.filter_eq_self.mpr fun c hc => ?_
  have hb : isBlank c = false := not_blank_of_mem h hc
  have hne : ∀ d, isDigit d = false → d ≠ '.' → c ≠ d := by
    rintro d hd hp rfl
    obtain hdigit | hpoint := (pointed_of_isNumber (isNumber_lexeme h hk)).mem c hc
    · simp [hd] at hdigit
    · exact hp hpoint
  simp [isCarried, hb, hne '(' (by decide) (by decide), hne ')' (by decide) (by decide)]

theorem filter_lexeme_paren (h : t.isValid trailingDot = true)
    (hk : t.kind = .openParen ∨ t.kind = .closeParen) : t.lexeme.filter isCarried = [] := by
  obtain ⟨k, lexeme⟩ := t
  obtain rfl | rfl := hk
  all_goals
    rw [show lexeme = _ from of_decide_eq_true h]
    rfl

end Token

theorem filter_symbol_sign (s : Sign) : s.kind.symbol.filter isCarried = s.kind.symbol := by
  cases s <;> rfl

theorem filter_symbol_operator (o : Operator) : o.kind.symbol.filter isCarried = o.kind.symbol := by
  cases o <;> rfl

theorem filter_lexemes_append (ts us : List Token) : (lexemes (ts ++ us)).filter isCarried =
    (lexemes ts).filter isCarried ++ (lexemes us).filter isCarried := by
  rw [lexemes, List.flatMap_append, List.filter_append]
  rfl

theorem filter_lexemes_cons (t : Token) (ts : List Token) : (lexemes (t :: ts)).filter isCarried =
    t.lexeme.filter isCarried ++ (lexemes ts).filter isCarried := by
  rw [lexemes_cons, List.filter_append]

/-! ## the expression that they derive -/

namespace Derives

/-- What is joined by an operator has the operator between what is on its sides. -/
theorem inOrder_join {o : Operator} {us : List Token} {l r : Expr}
    (hv : ∀ u ∈ ts ++ t :: us, u.isValid trailingDot = true) (ho : t.kind.operator? = some o)
    (ihl : (∀ t ∈ ts, t.isValid trailingDot = true) →
      l.inOrder = (lexemes ts).filter isCarried)
    (ihr : (∀ t ∈ us, t.isValid trailingDot = true) →
      r.inOrder = (lexemes us).filter isCarried) :
    (Expr.binary o l r).inOrder = (lexemes (ts ++ t :: us)).filter isCarried := by
  obtain ⟨hts, hvt⟩ := List.forall_mem_append.mp hv
  obtain ⟨ht, hus⟩ := List.forall_mem_cons.mp hvt
  rw [Expr.inOrder, ihl hts, ihr hus, filter_lexemes_append, filter_lexemes_cons,
    Token.lexeme_of_operator? ht ho, filter_symbol_operator, List.append_assoc]

/-- An expression holds the lexemes of its tokens but for the parentheses, in their order. -/
theorem inOrder_eq (h : Derives depth rank ts e) (hv : ∀ t ∈ ts, t.isValid trailingDot = true) :
    e.inOrder = (lexemes ts).filter isCarried := by
  induction h with
  | @number _ t x hk _ =>
      have ht := hv t List.mem_cons_self
      rw [Expr.inOrder, filter_lexemes_cons, Token.filter_lexeme_number ht hk]
      exact (List.append_nil _).symm
  | @parentheses _ opening closing ts e ho hc _ ih =>
      obtain ⟨hopening, hvt⟩ := List.forall_mem_cons.mp hv
      obtain ⟨hts, hclosing⟩ := List.forall_mem_append.mp hvt
      rw [List.cons_append, filter_lexemes_cons, filter_lexemes_append, filter_lexemes_cons,
        Token.filter_lexeme_paren hopening (.inl ho),
        Token.filter_lexeme_paren (hclosing closing List.mem_cons_self) (.inr hc), ih hts]
      exact (List.append_nil _).symm
  | unsigned _ ih | factor _ ih | term _ ih => exact ih hv
  | signed hs _ ih =>
      obtain ⟨ht, hts⟩ := List.forall_mem_cons.mp hv
      rw [Expr.inOrder, ih hts, filter_lexemes_cons, Token.lexeme_of_sign? ht hs,
        filter_symbol_sign]
  | multiply _ ho _ ihl ihr => exact inOrder_join hv (Kind.operator?_of_multiplicative? ho) ihl ihr
  | add _ ho _ ihl ihr => exact inOrder_join hv (Kind.operator?_of_additive? ho) ihl ihr

/-- The numbers of an expression are those of its tokens. -/
theorem isLexical (h : Derives depth rank ts e) (hv : ∀ t ∈ ts, t.isValid trailingDot = true) :
    e.IsLexical trailingDot := by
  induction h with
  | @number _ t x hk hx =>
      refine ⟨Token.isNumber_lexeme (hv t List.mem_cons_self) hk, ?_⟩
      rw [Token.value, if_pos hk] at hx
      cases hnumeral : Decimal.numeral? t.lexeme with
      | none => simp [hnumeral] at hx
      | some y => simpa [hnumeral] using hx
  | parentheses _ _ _ ih =>
      exact ih (List.forall_mem_append.mp (List.forall_mem_cons.mp hv).2).1
  | unsigned _ ih | factor _ ih | term _ ih => exact ih hv
  | signed _ _ ih => exact ih (List.forall_mem_cons.mp hv).2
  | multiply _ _ _ ihl ihr | add _ _ _ ihl ihr =>
      obtain ⟨hts, hvt⟩ := List.forall_mem_append.mp hv
      exact ⟨ihl hts, ihr (List.forall_mem_cons.mp hvt).2⟩

end Derives

/-- Expressions of lines that are the same in shape, in signs and operators and in the lexemes of
their numbers are equal, since these have the values of their lexemes. -/
theorem Expr.eq_of_same {trailingDot' : Bool} {f : Expr} (he : e.IsLexical trailingDot)
    (hf : f.IsLexical trailingDot') (h : e.same f = true) : e = f := by
  induction e generalizing f with
  | literal v lexeme =>
      cases f with
      | literal w lexeme' =>
          simp only [same, Bool.and_eq_true, beq_iff_eq] at h
          obtain rfl : v = w := Option.some.inj (he.2.symm.trans (h.2 ▸ hf.2))
          rw [h.2]
      | _ => cases h
  | signed s e ih =>
      cases f with
      | signed s' f =>
          simp only [same, Bool.and_eq_true, beq_iff_eq] at h
          have hf : f.IsLexical trailingDot' := hf
          rw [h.1, ih he hf h.2]
      | _ => cases h
  | binary o l r ihl ihr =>
      cases f with
      | binary o' l' r' =>
          simp only [same, Bool.and_eq_true, beq_iff_eq] at h
          rw [h.1.1, ihl he.1 hf.1 h.1.2, ihr he.2 hf.2 h.2]
      | _ => cases h

/-! ## lines -/

namespace Line

/-- The tokens of a line that is an expression are valid and derive it. -/
theorem exists_isValid_derives (h : read s text = .ok e) :
    ∃ ts, tokens s text = ts ++ [.endOfLine] ∧ (∀ t ∈ ts, t.isValid s.trailingDot = true) ∧
      Derives s.limit .addition ts e := by
  obtain ⟨ts, hts, hd⟩ := exists_derives h
  obtain ⟨us, hus, hv⟩ := (cuts_tokensOf s.trailingDot text).exists_isValid
  obtain rfl : ts = us := List.append_cancel_right (hts.symm.trans hus)
  exact ⟨ts, hts, hv, hd⟩

/-- The numbers of an expression that was read have the lexemes and values of tokens. -/
theorem isLexical_of_read (h : read s text = .ok e) : e.IsLexical s.trailingDot := by
  obtain ⟨ts, -, hv, hd⟩ := exists_isValid_derives h
  exact hd.isLexical hv

/-- In the order of a line, the expression that a line is read as holds all of the line but the
white space and the parentheses, and nothing else.  So lines that are read as the same expression
differ in white space and parentheses only, whatever the settings. -/
theorem inOrder_of_read (h : read s text = .ok e) :
    e.inOrder = text.filter isCarried ∧
      ∀ s' text' f, read s' text' = .ok f → e.same f = true →
        text.filter isCarried = text'.filter isCarried := by
  have carried : ∀ {s text e}, read s text = .ok e → e.inOrder = text.filter isCarried := by
    intro s text e h
    obtain ⟨ts, hts, hv, hd⟩ := exists_isValid_derives h
    have hlexemes : lexemes (ts ++ [.endOfLine]) = text.filter (!isBlank ·) :=
      hts ▸ (cuts_tokensOf s.trailingDot text).lexemes_eq
    have hfilter : (text.filter (!isBlank ·)).filter isCarried = text.filter isCarried := by
      rw [List.filter_filter]
      refine List.filter_congr fun c _ => ?_
      cases hb : isBlank c <;> simp [isCarried, hb]
    rw [hd.inOrder_eq hv, ← hfilter, ← hlexemes, filter_lexemes_append]
    exact (List.append_nil _).symm
  refine ⟨carried h, fun s' text' f h' hsame => ?_⟩
  have heq : e = f := Expr.eq_of_same (isLexical_of_read h) (isLexical_of_read h') hsame
  rw [← carried h, ← carried h', heq]

/-- A number in parentheses, from which a number under a sign is taken. -/
def spacedMinuses : List (List Char × Token) :=
  [([], Kind.openParen.token), ([], ⟨.number, ['1']⟩), ([], Kind.closeParen.token),
   ([' '], Kind.minus.token), ([' '], Kind.minus.token), ([], ⟨.number, ['2']⟩)]

/-- The same expression with the other number in parentheses, and no blanks. -/
def minuses : List Token :=
  [⟨.number, ['1']⟩, Kind.minus.token, Kind.minus.token, Kind.openParen.token, ⟨.number, ['2']⟩,
   Kind.closeParen.token]

/-- Two lines with the same text but for blanks and parentheses, and one tree. -/
theorem inOrder_minuses : ∃ e, read .standard "(1) - -2".toList = .ok e ∧
    read .standard "1--(2)".toList = .ok e ∧ e.same e = true ∧ e.inOrder = "1--2".toList ∧
      "(1) - -2".toList.filter isCarried = "1--(2)".toList.filter isCarried := by
  let number (lexeme : List Char) : Expr := .literal ((Decimal.numeral? lexeme).getD 0) lexeme
  have hone : Derives 99 .addition [⟨.number, ['1']⟩] (number ['1']) :=
    .term (.factor (.unsigned (.number rfl rfl)))
  have htwo : Derives 99 .addition [⟨.number, ['2']⟩] (number ['2']) :=
    .term (.factor (.unsigned (.number rfl rfl)))
  have hspaced : Derives Settings.standard.limit .addition (spacedMinuses.map Prod.snd)
      (.binary .sub (number ['1']) (.signed .minus (number ['2']))) :=
    .add (.term (.factor (.unsigned (.parentheses rfl rfl hone)))) rfl
      (.factor (.signed rfl (.number rfl rfl)))
  have hminuses : Derives Settings.standard.limit .addition minuses
      (.binary .sub (number ['1']) (.signed .minus (number ['2']))) :=
    .add (.term (.factor (.unsigned (.number rfl rfl)))) rfl
      (.factor (.signed rfl (.parentheses rfl rfl htwo)))
  have htext : spaced spacedMinuses ++ [] = "(1) - -2".toList := by decide
  have h : read .standard (spaced spacedMinuses ++ []) = .ok _ :=
    read_spaced hspaced (by decide) (by decide) rfl
  rw [htext] at h
  have h' : read .standard "1--(2)".toList = .ok _ := read_lexemes hminuses (by decide)
  have hsame : (Expr.binary .sub (number ['1']) (.signed .minus (number ['2']))).same
      (.binary .sub (number ['1']) (.signed .minus (number ['2']))) = true := by decide +kernel
  obtain ⟨hinOrder, hlines⟩ := inOrder_of_read h
  exact ⟨_, h, h', hsame, hinOrder.trans (by decide), hlines _ _ _ h' hsame⟩

end Line

end LineCalc
