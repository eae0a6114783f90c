import LineCalc.Proofs.Cutting.Uniqueness

/-!
# LineCalc.Proofs.Cutting.TrailingDot

Lines cut with and without bare points at the end of numbers.  Where a number
may not end in a bare point, the point is an error token after the number, and
nothing else is cut in another way: `tokensOf_false`.  No digit follows a bare
point, since the number would go on with it, so both cuts go on at the same
place.
-/

namespace LineCalc

open Text

variable {cs ds rest front : List Char} {ts : List Token} {t : Token}

/-! ## bare points -/

/-- A number whose last character is a point. -/
def Token.endsInPoint (t : Token) : Bool := t.kind = .number && t.lexeme.getLast? = some '.'

/-- A token where numbers may not end in a bare point: the point is an error by itself. -/
def Token.splitPoint (t : Token) : List Token :=
  if t.endsInPoint then [⟨.number, t.lexeme.dropLast⟩, ⟨.error, ['.']⟩] else [t]

theorem isDigit_point : isDigit '.' = false := by decide

/-- Digits do not end in a point. -/
theorem getLast?_ne_point (hd : ∀ d ∈ ds, isDigit d = true) : ds.getLast? ≠ some '.' := by
  intro h
  simpa [isDigit_point] using hd '.' (List.mem_of_getLast? h)

/-- A number that ends in a point is digits before it. -/
theorem Pointed.exists_of_getLast? {trailingDot : Bool} (h : Pointed trailingDot isDigit cs)
    (hl : cs.getLast? = some '.') :
    ∃ ds, cs = ds ++ ['.'] ∧ ds ≠ [] ∧ ∀ d ∈ ds, isDigit d = true := by
  cases h with
  | whole _ hd => exact absurd hl (getLast?_ne_point hd)
  | @point ds fs hne hd hf _ =>
      cases fs with
      | nil => exact ⟨ds, rfl, hne, hd⟩
      | cons f fs =>
          have hlast : (f :: fs).getLast? = some '.' := by simpa using hl
          exact absurd hlast (getLast?_ne_point hf)

/-- A number that does not end in a point is one without trailing points too. -/
theorem Pointed.strict (h : Pointed true isDigit cs) (hl : cs.getLast? ≠ some '.') :
    Pointed false isDigit cs := by
  cases h with
  | whole hne hd => exact .whole hne hd
  | @point ds fs hne hd hf _ =>
      refine .point hne hd hf (.inr ?_)
      rintro rfl
      simp at hl

/-- A number without a trailing point is a number under either setting. -/
theorem isNumber_lenient (h : isNumber false cs = true) : isNumber true cs = true := by
  apply isNumber_of_pointed
  cases pointed_of_isNumber h with
  | whole hne hd => exact .whole hne hd
  | point hne hd hf _ => exact .point hne hd hf (.inl rfl)

/-! ## the longest number -/

namespace LongestFront

/-- The longest number is the same without trailing points if it does not end in one. -/
theorem strict (h : LongestFront (isNumber true) front cs) (hl : front.getLast? ≠ some '.') :
    LongestFront (isNumber false) front cs where
  front_of := h.front_of
  holds := isNumber_of_pointed ((pointed_of_isNumber h.holds).strict hl)
  longest := fun other hother hn => h.longest other hother (isNumber_lenient hn)

/-- No digit follows a bare point at the end of the longest number. -/
theorem not_digit_after_point (h : LongestFront (isNumber true) (ds ++ ['.']) (ds ++ '.' :: rest))
    (hne : ds ≠ []) (hd : ∀ d ∈ ds, isDigit d = true) : rest.head?.any isDigit = false := by
  cases rest with
  | nil => rfl
  | cons d rest =>
      by_contra hdigit
      have hdigit : isDigit d = true := by simpa using hdigit
      have hn : isNumber true (ds ++ '.' :: [d]) = true :=
        isNumber_of_pointed (.point hne hd (by simpa using hdigit) (.inl rfl))
      have hfront : ds ++ '.' :: [d] <+: ds ++ '.' :: d :: rest := by simp
      have hle := h.longest _ hfront hn
      simp at hle

/-- Without trailing points the longest number ends before a bare point. -/
theorem before_point (h : LongestFront (isNumber true) (ds ++ ['.']) (ds ++ '.' :: rest))
    (hne : ds ≠ []) (hd : ∀ d ∈ ds, isDigit d = true) :
    LongestFront (isNumber false) ds (ds ++ '.' :: rest) := by
  obtain ⟨d, ds', hcons⟩ := List.exists_cons_of_ne_nil hne
  have hhead : (ds ++ '.' :: rest).head?.any isDigit = true := by
    simp [hcons, hd d (hcons ▸ List.mem_cons_self)]
  have hpoint : pointFront false ('.' :: rest) = [] := by
    simp [pointFront, h.not_digit_after_point hne hd]
  have hlongest : LongestFront (isNumber false) _ _ := longestFront_numberFront hhead
  rwa [numberFront_point hd, hpoint, List.append_nil] at hlongest

end LongestFront

/-! ## lines -/

/-- The setting of the trailing point matters to numbers alone. -/
theorem Token.isValid_strict (h : t.isValid true = true) (hk : t.kind ≠ .number) :
    t.isValid false = true := by
  obtain ⟨k, lexeme⟩ := t
  cases k with
  | number => exact absurd rfl hk
  | _ => exact h

namespace Cuts

/-- The next token of a line that is cut without trailing points. -/
theorem splitPoint {blanks : List Char} (hb : blanks.all isBlank = true)
    (hv : t.isValid true = true)
    (hl : t.kind = .number → LongestFront (isNumber true) t.lexeme (t.lexeme ++ rest))
    (h : Cuts false rest ts) : Cuts false (blanks ++ t.lexeme ++ rest) (t.splitPoint ++ ts) := by
  by_cases hp : t.endsInPoint = true
  · have hpoint : t.kind = .number ∧ t.lexeme.getLast? = some '.' := by
      simpa [Token.endsInPoint] using hp
    have hn := (hl hpoint.1).holds
    obtain ⟨ds, hds, hne, hd⟩ := (pointed_of_isNumber hn).exists_of_getLast? hpoint.2
    have hlongest : LongestFront (isNumber false) ds (ds ++ '.' :: rest) := by
      have hfront := hl hpoint.1
      rw [hds, List.append_assoc] at hfront
      exact hfront.before_point hne hd
    have hblank : ([] : List Char).all isBlank = true := rfl
    have hrest : Cuts false ('.' :: rest) (⟨.error, ['.']⟩ :: ts) :=
      .token (t := ⟨.error, ['.']⟩) hblank (by decide) (fun hk => by cases hk) h
    have hnumber : Cuts false (blanks ++ ds ++ '.' :: rest)
        (⟨.number, ds⟩ :: ⟨.error, ['.']⟩ :: ts) :=
      .token (t := ⟨.number, ds⟩) hb hlongest.holds (fun _ => hlongest) hrest
    simpa [Token.splitPoint, hp, hds] using hnumber
  · rw [Token.splitPoint, if_neg hp]
    by_cases hk : t.kind = .number
    · have hlongest := (hl hk).strict (by simpa [Token.endsInPoint, hk] using hp)
      have hv : t.isValid false = true := by simpa [Token.isValid, hk] using hlongest.holds
      exact .token hb hv (fun _ => hlongest) h
    · exact .token hb (Token.isValid_strict hv hk) (fun hk' => absurd hk' hk) h

/-- A line cut with trailing points is cut without them by parting each number from its point. -/
theorem strict (h : Cuts true cs ts) : Cuts false cs (ts.flatMap Token.splitPoint) := by
  induction h with
  | finish hb => exact .finish hb
  | token hb hv hl _ ih => exact .splitPoint hb hv hl ih

end Cuts

/-- A line cut without trailing points is the line cut with them, where each point at the end of a
number is an error by itself. -/
theorem tokensOf_false (cs : List Char) :
    tokensOf false cs = (tokensOf true cs).flatMap Token.splitPoint :=
  (cuts_tokensOf false cs).unique (cuts_tokensOf true cs).strict

/-- Where no number ends in a point, a line is cut in the same way without trailing points. -/
theorem tokensOf_false_eq (h : ∀ t ∈ tokensOf true cs, t.endsInPoint = false) :
    tokensOf false cs = tokensOf true cs := by
  have hsplit : ∀ ts : List Token, (∀ t ∈ ts, t.endsInPoint = false) →
      ts.flatMap Token.splitPoint = ts := by
    intro ts hts
    induction ts with
    | nil => rfl
    | cons t ts ih =>
        obtain ⟨ht, hts⟩ := List.forall_mem_cons.mp hts
        rw [List.flatMap_cons, ih hts, Token.splitPoint, if_neg (by simp [ht]),
          List.singleton_append]
  rw [tokensOf_false, hsplit _ h]

end LineCalc
