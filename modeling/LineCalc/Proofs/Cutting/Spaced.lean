import LineCalc.Proofs.Cutting.Uniqueness
import Mathlib.Data.List.Chain

/-!
# LineCalc.Proofs.Cutting.Spaced

Lines made of tokens.  A number ends where the text after it could not make it
longer (`longestFront_append_iff`), and that is all there is to a line that is
written from tokens: it is cut into these tokens again exactly if each number
among them ends (`tokensOf_spaced_iff`).  Where no number runs into what comes
after it (`Apart`), this is so whatever blanks there are in front of the tokens
(`tokensOf_spaced`).
-/

namespace LineCalc

open Text

variable {trailingDot : Bool} {cs rest blanks : List Char} {t : Token} {c : Char}

/-! ## where a number ends -/

/-- The text makes a number before it longer: it begins with a digit, or with a point that the
number can have. -/
def GoesOn (trailingDot : Bool) (number rest : List Char) : Prop :=
  rest.head?.any isDigit = true ∨
    '.' ∉ number ∧ rest.head? = some '.' ∧
      (trailingDot = true ∨ rest.tail.head?.any isDigit = true)

namespace Pointed

/-- One more digit behind a number makes a number. -/
theorem append_digit (h : Pointed trailingDot isDigit cs) (hc : isDigit c = true) :
    Pointed trailingDot isDigit (cs ++ [c]) := by
  have snoc : ∀ ds : List Char, (∀ d ∈ ds, isDigit d = true) →
      ∀ d ∈ ds ++ [c], isDigit d = true := by
    simp [or_imp, forall_and, hc]
  cases h with
  | whole _ hd => exact .whole (by simp) (snoc _ hd)
  | @point ds fs hne hd hf _ =>
      rw [List.append_assoc, List.cons_append]
      exact .point hne hd (snoc fs hf) (.inr (by simp))

/-- A point and digits behind a number without a point make a number. -/
theorem append_point {fs : List Char} (h : Pointed trailingDot isDigit cs) (hp : '.' ∉ cs)
    (hf : ∀ f ∈ fs, isDigit f = true) (hempty : trailingDot = true ∨ fs ≠ []) :
    Pointed trailingDot isDigit (cs ++ '.' :: fs) := by
  cases h with
  | whole hne hd => exact .point hne hd hf hempty
  | point _ _ _ _ => simp at hp

end Pointed

/-- Where a number goes on, there is a longer one. -/
theorem exists_longer (hn : isNumber trailingDot cs = true) (h : GoesOn trailingDot cs rest) :
    ∃ more, more <+: rest ∧ more ≠ [] ∧ isNumber trailingDot (cs ++ more) = true := by
  have hpointed := pointed_of_isNumber hn
  obtain hd | ⟨hp, hpoint, hd⟩ := h
  · obtain ⟨d, hd, hdigit⟩ := (Option.any_eq_true ..).mp hd
    obtain ⟨more, rfl⟩ := List.head?_eq_some_iff.mp hd
    exact ⟨[d], by simp, by simp, isNumber_of_pointed (hpointed.append_digit hdigit)⟩
  · obtain ⟨more, rfl⟩ := List.head?_eq_some_iff.mp hpoint
    obtain hdot | hd := hd
    · exact ⟨['.'], by simp, by simp,
        isNumber_of_pointed (hpointed.append_point hp (by simp) (.inl hdot))⟩
    · obtain ⟨d, hd, hdigit⟩ := (Option.any_eq_true ..).mp hd
      obtain ⟨more, rfl⟩ := List.head?_eq_some_iff.mp hd
      exact ⟨['.', d], by simp, by simp,
        isNumber_of_pointed (hpointed.append_point hp (by simpa using hdigit) (.inr (by simp)))⟩

/-- A number followed by text it does not go on into is taken whole. -/
theorem numberFront_append (hn : isNumber trailingDot cs = true)
    (h : ¬ GoesOn trailingDot cs rest) : numberFront trailingDot (cs ++ rest) = cs := by
  have hdigit : ∀ c, rest.head? = some c → isDigit c = false := by
    intro c hc
    by_contra hd
    exact h (.inl (by simpa [hc] using hd))
  cases pointed_of_isNumber hn with
  | whole _ hd =>
      have hpoint : '.' ∉ cs := fun hmem => by
        have := hd '.' hmem
        simp [show isDigit '.' = false by decide] at this
      have hfront : pointFront trailingDot rest = [] := by
        unfold pointFront
        split
        · exact if_neg fun hmore => h (.inr ⟨hpoint, rfl, by simpa using hmore⟩)
        · rfl
      rw [numberFront, takeWhile_append_eq hd hdigit, dropWhile_append_eq hd hdigit, hfront,
        List.append_nil]
  | @point ds fs _ hd hf hempty =>
      have hpoint : (trailingDot || (fs ++ rest).head?.any isDigit) = true := by
        obtain hdot | hne := hempty
        · simp [hdot]
        · obtain ⟨f, fs, rfl⟩ := List.exists_cons_of_ne_nil hne
          simp [hf f List.mem_cons_self]
      rw [List.append_assoc, List.cons_append, numberFront_point hd, pointFront, if_pos hpoint,
        takeWhile_append_eq hf hdigit]

/-- A number is the longest at the front of a text exactly if it does not go on. -/
theorem longestFront_append_iff (hn : isNumber trailingDot cs = true) :
    LongestFront (isNumber trailingDot) cs (cs ++ rest) ↔ ¬ GoesOn trailingDot cs rest := by
  constructor
  · intro hlongest hgoes
    obtain ⟨more, hmore, hne, hlonger⟩ := exists_longer hn hgoes
    have hle := hlongest.longest _ ((List.prefix_append_right_inj cs).mpr hmore) hlonger
    have := List.length_pos_iff.mpr hne
    rw [List.length_append] at hle
    omega
  · intro hends
    obtain ⟨d, ds, hcons, hd⟩ := (pointed_of_isNumber hn).exists_cons
    have hlongest : LongestFront (isNumber trailingDot) (numberFront trailingDot (cs ++ rest))
        (cs ++ rest) := longestFront_numberFront (by simp [hcons, hd])
    rwa [numberFront_append hn hends] at hlongest

/-! ## characters at which every number ends -/

/-- The character is no part of a number. -/
def Stops (c : Char) : Prop := isDigit c = false ∧ c ≠ '.'

/-- A blank ends a number. -/
theorem stops_of_isBlank (h : isBlank c = true) : Stops c := by
  constructor
  · rw [Bool.eq_false_iff]
    intro hd
    simp [isBlank_eq_false hd] at h
  · rintro rfl
    simp [show isBlank '.' = false by decide] at h

theorem stops_of_ofFirst (hn : Kind.ofFirst c ≠ .number) (he : Kind.ofFirst c ≠ .error) :
    Stops c := by
  constructor
  · rw [Bool.eq_false_iff]
    exact fun hd => hn (Kind.ofFirst_of_isDigit hd)
  · rintro rfl
    exact he (by decide)

/-- A number does not go on into text that begins with a character that ends it. -/
theorem not_goesOn_of_stops (h : ∀ c, rest.head? = some c → Stops c) :
    ¬ GoesOn trailingDot cs rest := by
  rintro (hd | ⟨-, hpoint, -⟩)
  · obtain ⟨d, hd, hdigit⟩ := (Option.any_eq_true ..).mp hd
    simp [(h d hd).1] at hdigit
  · exact (h '.' hpoint).2 rfl

/-- A number does not go on behind a blank. -/
theorem not_goesOn_of_blanks (hb : blanks.all isBlank = true) (hne : blanks ≠ []) :
    ¬ GoesOn trailingDot cs (blanks ++ rest) := by
  obtain ⟨b, bs, rfl⟩ := List.exists_cons_of_ne_nil hne
  refine not_goesOn_of_stops fun c hc => ?_
  cases hc
  exact stops_of_isBlank (List.all_eq_true.mp hb b List.mem_cons_self)

/-! ## lines made of tokens -/

/-- Each number among the parts of a line ends before what comes after it; the text is what follows
the last part. -/
def Parted (trailingDot : Bool) : List (List Char × Token) → List Char → Prop
  | [], _ => True
  | (_, t) :: parts, rest =>
    (t.kind = .number → ¬ GoesOn trailingDot t.lexeme (spaced parts ++ rest)) ∧
      Parted trailingDot parts rest

/-- A line that begins with a token, and is cut so that this token is the first, is cut after it. -/
theorem Cuts.of_cons {ts : List Token} (hb : blanks.all isBlank = true)
    (hv : t.isValid trailingDot = true)
    (h : Cuts trailingDot (blanks ++ t.lexeme ++ rest) (t :: ts)) :
    (t.kind = .number → LongestFront (isNumber trailingDot) t.lexeme (t.lexeme ++ rest)) ∧
      Cuts trailingDot rest ts := by
  generalize hcs : blanks ++ t.lexeme ++ rest = cs at h
  cases h with
  | finish _ => cases hv
  | @token blanks' rest' _ _ hb' _ hl h' =>
      rw [List.append_assoc, List.append_assoc] at hcs
      have hcut := span_unique hcs (List.all_eq_true.mp hb)
        (fun c hc => Token.not_blank_of_head? hv hc) (List.all_eq_true.mp hb')
        (fun c hc => Token.not_blank_of_head? hv hc)
      obtain rfl : rest = rest' := List.append_cancel_left hcut.2
      exact ⟨hl, h'⟩

/-- Spaced tokens are cut back into themselves exactly when each is parted from the next. -/
theorem cuts_spaced_iff {parts : List (List Char × Token)} {last : List Char}
    (hv : ∀ p ∈ parts, p.2.isValid trailingDot = true) (hb : ∀ p ∈ parts, p.1.all isBlank = true)
    (hl : last.all isBlank = true) :
    Cuts trailingDot (spaced parts ++ last) (parts.map Prod.snd ++ [.endOfLine]) ↔
      Parted trailingDot parts last := by
  induction parts with
  | nil => exact ⟨fun _ => trivial, fun _ => .finish hl⟩
  | cons p parts ih =>
      obtain ⟨blanks, t⟩ := p
      obtain ⟨hvt, hv⟩ := List.forall_mem_cons.mp hv
      obtain ⟨hbt, hb⟩ := List.forall_mem_cons.mp hb
      have hnumber : t.kind = .number → isNumber trailingDot t.lexeme = true := fun hk => by
        simpa [Token.isValid, hk] using hvt
      rw [Parted, ← ih hv hb, spaced, List.append_assoc]
      constructor
      · intro h
        obtain ⟨hlongest, hrest⟩ := h.of_cons hbt hvt
        exact ⟨fun hk => (longestFront_append_iff (hnumber hk)).mp (hlongest hk), hrest⟩
      · rintro ⟨hends, hrest⟩
        exact .token hbt hvt (fun hk => (longestFront_append_iff (hnumber hk)).mpr (hends hk)) hrest

/-- A line made of tokens is cut into these tokens exactly if each number among them ends. -/
theorem tokensOf_spaced_iff {parts : List (List Char × Token)} {last : List Char}
    (hv : ∀ p ∈ parts, p.2.isValid trailingDot = true) (hb : ∀ p ∈ parts, p.1.all isBlank = true)
    (hl : last.all isBlank = true) :
    tokensOf trailingDot (spaced parts ++ last) = parts.map Prod.snd ++ [.endOfLine] ↔
      Parted trailingDot parts last := by
  rw [← cuts_spaced_iff hv hb hl]
  constructor
  · intro h
    exact h ▸ cuts_tokensOf trailingDot _
  · exact (cuts_tokensOf trailingDot _).unique

/-! ## tokens that keep apart -/

/-- A number does not run into the token after it. -/
def Apart (p q : List Char × Token) : Prop :=
  p.2.kind = .number → q.1 = [] → q.2.kind ≠ .number ∧ q.2.kind ≠ .error

/-- What comes after a number in a line made of tokens is no part of it. -/
theorem stops_of_isChain {parts : List (List Char × Token)} {last : List Char}
    (hc : ((blanks, t) :: parts).IsChain Apart) (hk : t.kind = .number)
    (hv : ∀ p ∈ parts, p.2.isValid trailingDot = true) (hb : ∀ p ∈ parts, p.1.all isBlank = true)
    (hl : last.all isBlank = true) :
    ∀ c, (spaced parts ++ last).head? = some c → Stops c := by
  intro c hhead
  have hblank : ∀ cs : List Char, cs.all isBlank = true → cs.head? = some c → Stops c :=
    fun cs hcs h => stops_of_isBlank (List.all_eq_true.mp hcs c (List.mem_of_head? h))
  cases parts with
  | nil => exact hblank last hl hhead
  | cons q parts =>
      obtain ⟨between, u⟩ := q
      cases between with
      | cons b bs =>
          refine hblank (b :: bs) (hb _ List.mem_cons_self) ?_
          simpa [spaced] using hhead
      | nil =>
          obtain ⟨d, ds, hd⟩ := Token.exists_begins (hv _ List.mem_cons_self)
          have hlexeme : u.lexeme = d :: ds := hd.lexeme
          have hcd : d = c := by simpa [spaced, hlexeme] using hhead
          have hapart : Apart (blanks, t) ([], u) := (List.isChain_cons_cons.mp hc).1
          obtain ⟨hn, he⟩ := hapart hk rfl
          rw [hd.kind, hcd] at hn he
          exact stops_of_ofFirst hn he

/-- Tokens set apart from their neighbours are parted. -/
theorem parted_of_isChain {parts : List (List Char × Token)} {last : List Char}
    (hc : parts.IsChain Apart) (hv : ∀ p ∈ parts, p.2.isValid trailingDot = true)
    (hb : ∀ p ∈ parts, p.1.all isBlank = true) (hl : last.all isBlank = true) :
    Parted trailingDot parts last := by
  induction parts with
  | nil => trivial
  | cons p parts ih =>
      obtain ⟨-, hv⟩ := List.forall_mem_cons.mp hv
      obtain ⟨-, hb⟩ := List.forall_mem_cons.mp hb
      exact ⟨fun hk => not_goesOn_of_stops (stops_of_isChain hc hk hv hb hl), ih hc.tail hv hb⟩

/-- A line made of tokens, with any blanks in front of them and at the end, is cut into these
tokens. -/
theorem tokensOf_spaced {parts : List (List Char × Token)} {last : List Char}
    (hc : parts.IsChain Apart) (hv : ∀ p ∈ parts, p.2.isValid trailingDot = true)
    (hb : ∀ p ∈ parts, p.1.all isBlank = true) (hl : last.all isBlank = true) :
    tokensOf trailingDot (spaced parts ++ last) = parts.map Prod.snd ++ [.endOfLine] :=
  (tokensOf_spaced_iff hv hb hl).mpr (parted_of_isChain hc hv hb hl)

end LineCalc
