import LineCalc.Line
import LineCalc.Proofs.Cutting.Tokens

/-!
# LineCalc.Proofs.Cutting.Uniqueness

There is one way to cut a line.  The first character of a token says what kind
it is of, and also how long it is, unless it is a number (`Token.Begins`); a
number is as long as it can be.  So the blanks end where the first token
begins, that token is the same in every cut, and so is what is left of the
line: `Cuts.unique`.  No character is lost but the blanks, since no lexeme has
a blank in it: `Cuts.lexemes_eq`.
-/

namespace LineCalc

open Text

variable {trailingDot : Bool} {cs rest rest' : List Char} {ts us : List Token} {t u : Token}
variable {c : Char}

/-! ## a token by its first character -/

namespace Kind

/-- The kind of the token that begins with a character, which is no blank. -/
def ofFirst (c : Char) : Kind :=
  match ofChar? c with
  | some k => k
  | none => if isDigit c then .number else .error

/-- The characters with kinds of their own are neither blanks nor digits. -/
theorem apart_of_ofChar? {k : Kind} (h : ofChar? c = some k) :
    isBlank c = false ∧ isDigit c = false := by
  have hs := symbol_of_ofChar? h
  cases k <;> simp only [symbol, List.cons.injEq, and_true, reduceCtorEq, and_false] at hs
  all_goals
    subst hs
    decide

/-- A token that begins with a digit is a number. -/
theorem ofFirst_of_isDigit (h : isDigit c = true) : ofFirst c = .number := by
  have hc : ofChar? c = none := by
    cases hk : ofChar? c with
    | none => rfl
    | some k => simp [(apart_of_ofChar? hk).2] at h
  rw [ofFirst, hc]
  exact if_pos h

end Kind

namespace Token

/-- A token begins with a character, which decides its kind and, unless it is a number, is all of
it. -/
structure Begins (t : Token) (c : Char) (cs : List Char) : Prop where
  lexeme : t.lexeme = c :: cs
  not_blank : isBlank c = false
  kind : t.kind = Kind.ofFirst c
  alone : t.kind ≠ .number → cs = []

/-- A sign begins with its only character. -/
theorem begins_sign (hl : t.lexeme = [c]) (h : Kind.ofChar? c = some t.kind) : t.Begins c [] where
  lexeme := hl
  not_blank := (Kind.apart_of_ofChar? h).1
  kind := by rw [Kind.ofFirst, h]
  alone _ := rfl

/-- A stray character is a token of its own. -/
theorem begins_stray (h : isStray c = true) : Begins ⟨.error, [c]⟩ c [] := by
  simp only [isStray, Bool.and_eq_true, Bool.not_eq_true', Option.isNone_iff_eq_none] at h
  obtain ⟨⟨hb, hd⟩, hc⟩ := h
  exact ⟨rfl, hb, by simp [Kind.ofFirst, hc, hd], fun _ => rfl⟩

/-- A number begins with a digit. -/
theorem exists_begins_number {lexeme : List Char}
    (h : LineCalc.isNumber trailingDot lexeme = true) :
    ∃ c cs, Begins ⟨.number, lexeme⟩ c cs := by
  obtain ⟨d, ds, rfl, hd⟩ := (pointed_of_isNumber h).exists_cons
  have hkind : Kind.number = Kind.ofFirst d := (Kind.ofFirst_of_isDigit hd).symm
  exact ⟨d, ds, rfl, isBlank_eq_false hd, hkind, fun hk => absurd rfl hk⟩

/-- Every token but the end of the line begins with a character. -/
theorem exists_begins (h : t.isValid trailingDot = true) : ∃ c cs, t.Begins c cs := by
  obtain ⟨k, lexeme⟩ := t
  cases k with
  | number => exact exists_begins_number h
  | error =>
      simp only [isValid] at h
      split at h
      · next c => exact ⟨c, [], begins_stray h⟩
      · cases h
  | eof => cases h
  | _ => exact ⟨_, _, begins_sign (of_decide_eq_true h) rfl⟩

/-- No character of a lexeme is a blank. -/
theorem not_blank_of_mem (h : t.isValid trailingDot = true) (hc : c ∈ t.lexeme) :
    isBlank c = false := by
  obtain ⟨d, ds, hb⟩ := exists_begins h
  by_cases hk : t.kind = .number
  · have hn : LineCalc.isNumber trailingDot t.lexeme = true := by simpa [isValid, hk] using h
    obtain hd | rfl := (pointed_of_isNumber hn).mem c hc
    · exact isBlank_eq_false hd
    · decide
  · rw [hb.lexeme, hb.alone hk, List.mem_singleton] at hc
    exact hc ▸ hb.not_blank

/-- No token begins with a blank. -/
theorem not_blank_of_head? (h : t.isValid trailingDot = true)
    (hc : (t.lexeme ++ rest).head? = some c) : isBlank c = false := by
  obtain ⟨d, ds, hd⟩ := exists_begins h
  rw [hd.lexeme] at hc
  cases hc
  exact hd.not_blank

/-- A text with a token in it is not all blanks. -/
theorem not_all_isBlank {blanks : List Char} (h : t.isValid trailingDot = true) :
    ¬ (blanks ++ t.lexeme ++ rest).all isBlank = true := by
  obtain ⟨c, cs, hc⟩ := exists_begins h
  intro hb
  have hmem : c ∈ blanks ++ t.lexeme ++ rest := by simp [hc.lexeme]
  simpa [hc.not_blank] using List.all_eq_true.mp hb c hmem

end Token

/-! ## two cuts of one line -/

/-- Where the characters of a class end is the same for two texts that are the same. -/
theorem span_unique {p : Char → Bool} {ds ds' cs' : List Char} (h : ds ++ cs = ds' ++ cs')
    (hd : ∀ d ∈ ds, p d = true) (hc : ∀ c, cs.head? = some c → p c = false)
    (hd' : ∀ d ∈ ds', p d = true) (hc' : ∀ c, cs'.head? = some c → p c = false) :
    ds = ds' ∧ cs = cs' := by
  have ht := congrArg (List.takeWhile p) h
  have hr := congrArg (List.dropWhile p) h
  rw [takeWhile_append_eq hd hc, takeWhile_append_eq hd' hc'] at ht
  rw [dropWhile_append_eq hd hc, dropWhile_append_eq hd' hc'] at hr
  exact ⟨ht, hr⟩

/-- A text has one longest front of a form. -/
theorem LongestFront.unique {p : List Char → Bool} {front front' : List Char}
    (h : LongestFront p front cs) (h' : LongestFront p front' cs) : front = front' := by
  have hle := h'.longest front h.front_of h.holds
  have hge := h.longest front' h'.front_of h'.holds
  exact (List.prefix_of_prefix_length_le h.front_of h'.front_of hle).eq_of_length
    (Nat.le_antisymm hle hge)

/-- The token at the front of a text is the same in every cut of it. -/
theorem Token.unique (ht : t.isValid trailingDot = true) (hu : u.isValid trailingDot = true)
    (hl : t.kind = .number → LongestFront (isNumber trailingDot) t.lexeme (t.lexeme ++ rest))
    (hl' : u.kind = .number → LongestFront (isNumber trailingDot) u.lexeme (u.lexeme ++ rest'))
    (h : t.lexeme ++ rest = u.lexeme ++ rest') : t = u ∧ rest = rest' := by
  obtain ⟨c, cs, hb⟩ := exists_begins ht
  obtain ⟨d, ds, hb'⟩ := exists_begins hu
  have hcd : c = d := by
    rw [hb.lexeme, hb'.lexeme] at h
    exact (List.cons.inj h).1
  have hkind : t.kind = u.kind := by rw [hb.kind, hb'.kind, hcd]
  have hlexeme : t.lexeme = u.lexeme := by
    by_cases hk : t.kind = .number
    · exact (hl hk).unique (h ▸ hl' (hkind ▸ hk))
    · rw [hb.lexeme, hb'.lexeme, hb.alone hk, hb'.alone (hkind ▸ hk), hcd]
  refine ⟨?_, List.append_cancel_left (hlexeme ▸ h)⟩
  obtain ⟨k, lexeme⟩ := t
  cases hkind
  cases hlexeme
  rfl

namespace Cuts

/-- A line can be cut in one way at most. -/
theorem unique (h : Cuts trailingDot cs ts) (h' : Cuts trailingDot cs us) : ts = us := by
  induction h generalizing us with
  | finish hb =>
      cases h' with
      | finish _ => rfl
      | token _ hv _ _ => exact absurd hb (Token.not_all_isBlank hv)
  | @token blanks rest t ts hb hv hl _ ih =>
      generalize hcs : blanks ++ t.lexeme ++ rest = cs at h'
      cases h' with
      | finish hb' => exact absurd (hcs ▸ hb') (Token.not_all_isBlank hv)
      | token hb' hv' hl' hc' =>
          rw [List.append_assoc, List.append_assoc] at hcs
          obtain ⟨-, hrest⟩ := span_unique hcs
            (List.all_eq_true.mp hb) (fun _ => Token.not_blank_of_head? hv)
            (List.all_eq_true.mp hb') (fun _ => Token.not_blank_of_head? hv')
          obtain ⟨rfl, rfl⟩ := Token.unique hv hv' hl hl' hrest
          rw [ih hc']

/-- The lexemes of a line are the line without its blanks. -/
theorem lexemes_eq (h : Cuts trailingDot cs ts) : lexemes ts = cs.filter (!isBlank ·) := by
  rw [← h.lexemes_filter, eq_comm, List.filter_eq_self]
  obtain ⟨before, rfl, hv⟩ := h.exists_isValid
  intro c hc
  obtain ⟨t, ht, hmem⟩ := List.mem_flatMap.mp hc
  rw [List.mem_append, List.mem_singleton] at ht
  obtain ht | rfl := ht
  · simp [Token.not_blank_of_mem (hv t ht) hmem]
  · simp [Token.endOfLine] at hmem

end Cuts

/-! ## the tokens of a line -/

/-- The tokens of a line are the one list that cuts it, with the longest number wherever there is a
number: signs with their kinds, numbers, which are digits with possibly a point and digits after
them, and stray characters, then the end of the line and nothing like it before.  Their lexemes
are the line without its blanks. -/
theorem Line.tokens_eq_iff_cuts (s : Settings) (text : List Char) :
    (∀ ts, Line.tokens s text = ts ↔ Cuts s.trailingDot text ts) ∧
    (∃ before, Line.tokens s text = before ++ [Token.endOfLine] ∧
      ∀ t ∈ before, t.isValid s.trailingDot = true) ∧
    (∀ cs, isNumber s.trailingDot cs = true ↔ Pointed s.trailingDot isDigit cs) ∧
    lexemes (Line.tokens s text) = text.filter (!isBlank ·) := by
  have hcuts : Cuts s.trailingDot text (Line.tokens s text) := cuts_tokensOf s.trailingDot text
  refine ⟨fun ts => ⟨?_, hcuts.unique⟩, hcuts.exists_isValid,
    fun cs => ⟨pointed_of_isNumber, isNumber_of_pointed⟩, hcuts.lexemes_eq⟩
  rintro rfl
  exact hcuts

end LineCalc
