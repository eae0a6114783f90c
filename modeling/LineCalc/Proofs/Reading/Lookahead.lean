import LineCalc.Proofs.Reading.Operations

/-!
# LineCalc.Proofs.Reading.Lookahead

A reading looks at the next token and at no other.  Two places are alongside
each other if they agree on the tokens from one place in the line up to
another; from there a course that stops by the latter goes the same way on
both sides, and the places where it stops are alongside each other again
(`Course.alongside`).  Hence the answer of an operation depends on the tokens
from where it begins up to the one where it stops, the reading of a line on
the tokens up to its first end, and the token that is named before a missing
parenthesis has been taken by the operation itself: `Reading.perform_lookahead`.
-/

namespace LineCalc

variable {limit room first last : Nat} {goal : Goal} {r r' s : Reading} {t p : Token}
variable {ts us : List Token} {out : Except Reading.Fault Expr}

namespace Reading

theorem tokens_shift (h : r.ahead = t :: ts) : r.shift.tokens = r.tokens := by
  simp [tokens, ahead_shift h, consumed_shift h, h]

theorem place_shift (h : r.ahead = t :: ts) : r.shift.place = r.place + 1 := by
  simp [place, consumed_shift h]

theorem place_le_shift (r : Reading) : r.place ≤ r.shift.place := by
  simp [place, shift]

/-- Once a token has been taken, the last one taken is that before the place. -/
theorem previous?_eq (h : 0 < r.place) : r.previous? = r.tokens[r.place - 1]? := by
  cases hc : r.consumed with
  | nil => simp [place, hc] at h
  | cons q qs =>
      rw [(getElem?_pred_place hc).2, previous?, hc]
      rfl

/-- After a passage of one token or more the last token taken is one of the passage. -/
theorem Passes.exists_last (h : r.Passes (t :: us) r') (hp : r'.previous? = some p) :
    ∃ vs, t :: us = vs ++ [p] := by
  rw [previous?, h.consumed, List.head?_append, List.head?_reverse,
    List.getLast?_eq_some_getLast (List.cons_ne_nil t us)] at hp
  have hlast : (t :: us).getLast (List.cons_ne_nil t us) = p := by simpa using hp
  exact ⟨(t :: us).dropLast, by rw [← hlast, List.dropLast_concat_getLast]⟩

/-! ## places that agree on a stretch of tokens -/

/-- Two places equally far into their tokens, which are the same from the place `first` up to the
place `last`. -/
structure Alongside (first last : Nat) (r s : Reading) : Prop where
  limit : s.limit = r.limit
  depth : s.depth = r.depth
  place : s.place = r.place
  first_le : first ≤ r.place
  agree : ∀ i, first ≤ i → i ≤ last → s.tokens[i]? = r.tokens[i]?

namespace Alongside

/-- Where one reading has a token ahead, a reading alongside it has the same. -/
theorem exists_ahead (h : Alongside first last r s) (hl : r.place ≤ last)
    (ha : r.ahead = t :: ts) : ∃ us, s.ahead = t :: us := by
  have hs : s.tokens[s.place]? = some t := by
    rw [h.place, h.agree _ h.first_le hl, getElem?_place ha]
  rwa [← List.head?_drop, drop_place, List.head?_eq_some_iff] at hs

/-- The next token is taken on both sides. -/
theorem exists_shift (h : Alongside first last r s) (ha : r.ahead = t :: ts)
    (hl : r.shift.place ≤ last) :
    ∃ us, s.ahead = t :: us ∧ Alongside first last r.shift s.shift := by
  have hr := place_shift ha
  obtain ⟨us, hs⟩ := h.exists_ahead (by omega) ha
  refine ⟨us, hs, h.limit, h.depth, ?_, ?_, ?_⟩
  · rw [hr, place_shift hs, h.place]
  · rw [hr]
    exact Nat.le_succ_of_le h.first_le
  · rw [tokens_shift ha, tokens_shift hs]
    exact h.agree

/-- Readings alongside each other enter a group together. -/
theorem enter (h : Alongside first last r s) : Alongside first last r.enter s.enter :=
  ⟨h.limit, congrArg (· + 1) h.depth, h.place, h.first_le, h.agree⟩

/-- Readings alongside each other leave a group together. -/
theorem leave (h : Alongside first last r s) : Alongside first last r.leave s.leave :=
  ⟨h.limit, congrArg (· - 1) h.depth, h.place, h.first_le, h.agree⟩

/-- Readings alongside each other report a fault together. -/
theorem report (h : Alongside first last r s) (f : GrammarFault) :
    Alongside first last (r.report f) (s.report f) :=
  ⟨h.limit, h.depth, h.place, h.first_le, h.agree⟩

/-- The last token taken is the same on both sides if the stretch begins with it or before. -/
theorem previous?_eq (h : Alongside first last r s) (hf : first < r.place)
    (hl : r.place ≤ last) : s.previous? = r.previous? := by
  have hr : 0 < r.place := by omega
  have hs : 0 < s.place := h.place ▸ hr
  rw [Reading.previous?_eq hr, Reading.previous?_eq hs, h.place]
  exact h.agree _ (by omega) (by omega)

end Alongside

end Reading

/-! ## courses alongside -/

namespace Course

open Reading

/-- A course that stops by a place has begun by it. -/
theorem place_le (h : Course room goal r out r') (hl : r'.place ≤ last) : r.place ≤ last := by
  obtain ⟨us, hu⟩ := h.exists_passes
  have := hu.place_eq
  omega

/-- A course that stops within the stretch on which two places agree goes the same way from both. -/
theorem alongside (h : Course room goal r out r') (hl : r'.place ≤ last)
    (hs : Alongside first last r s) :
    ∃ s', Course room goal s out s' ∧ Alongside first last r' s' := by
  induction h generalizing s with
  | number ha hk hv =>
      obtain ⟨us, hsa, hs⟩ := hs.exists_shift ha hl
      exact ⟨_, .number hsa hk hv, hs⟩
  | unreadable ha hk hv =>
      obtain ⟨us, hsa, hs⟩ := hs.exists_shift ha hl
      exact ⟨_, .unreadable hsa hk hv, hs⟩
  | invalid ha hn ho =>
      obtain ⟨us, hsa⟩ := hs.exists_ahead hl ha
      exact ⟨_, .invalid hsa hn ho, hs.report _⟩
  | tooDeep ha hk =>
      obtain ⟨us, hsa, hs⟩ := hs.exists_shift ha hl
      exact ⟨_, .tooDeep hsa hk, hs.enter.report _⟩
  | faultWithin ha hk hin ih =>
      obtain ⟨us, hsa, hs⟩ := hs.exists_shift ha (hin.place_le hl)
      obtain ⟨s', hc, hs'⟩ := ih hl hs.enter
      exact ⟨s', .faultWithin hsa hk hc, hs'⟩
  | @unclosed _ r r' t p c ts cs e ha hk hin hc hck hp ih =>
      have hfirst := hs.first_le
      have hr := place_shift ha
      have hr' : r.shift.place ≤ r'.place := hin.place_le (Nat.le_refl _)
      obtain ⟨us, hsa, hs⟩ := hs.exists_shift ha (Nat.le_trans hr' hl)
      obtain ⟨s', hcs, hs'⟩ := ih hl hs.enter
      obtain ⟨vs, hsc⟩ := hs'.exists_ahead hl hc
      -- the parenthesis has been taken within the stretch, so the last token taken is the same
      have hlast := hs'.previous?_eq (by omega) hl
      exact ⟨_, .unclosed hsa hk hcs hsc hck (hlast.trans hp), hs'.report _⟩
  | @closed _ r r' t c ts cs e ha hk hin hc hck ih =>
      have hl' : r'.place ≤ last := Nat.le_trans (place_le_shift r') hl
      obtain ⟨us, hsa, hs⟩ := hs.exists_shift ha (hin.place_le hl')
      obtain ⟨s', hcs, hs'⟩ := ih hl' hs.enter
      obtain ⟨vs, hsc, hs''⟩ := hs'.exists_shift hc hl
      exact ⟨_, .closed hsa hk hcs hsc hck, hs''.leave⟩
  | unsigned ha hk hin ih =>
      obtain ⟨us, hsa⟩ := hs.exists_ahead (hin.place_le hl) ha
      obtain ⟨s', hc, hs'⟩ := ih hl hs
      exact ⟨s', .unsigned hsa hk hc, hs'⟩
  | faultUnderSign ha hk hin ih =>
      obtain ⟨us, hsa, hs⟩ := hs.exists_shift ha (hin.place_le hl)
      obtain ⟨s', hc, hs'⟩ := ih hl hs
      exact ⟨s', .faultUnderSign hsa hk hc, hs'⟩
  | signed ha hk hin ih =>
      obtain ⟨us, hsa, hs⟩ := hs.exists_shift ha (hin.place_le hl)
      obtain ⟨s', hc, hs'⟩ := ih hl hs
      exact ⟨s', .signed hsa hk hc, hs'⟩
  | faultFirst hi _ ih =>
      obtain ⟨s', hc, hs'⟩ := ih hl hs
      exact ⟨s', .faultFirst hi hc, hs'⟩
  | first hi _ hafter ih ih' =>
      obtain ⟨s', hc, hs'⟩ := ih (hafter.place_le hl) hs
      obtain ⟨s'', hc', hs''⟩ := ih' hl hs'
      exact ⟨s'', .first hi hc hc', hs''⟩
  | last ha ho =>
      obtain ⟨us, hsa⟩ := hs.exists_ahead hl ha
      exact ⟨s, .last hsa ho, hs⟩
  | faultNext ha ho hi hin ih =>
      obtain ⟨us, hsa, hs⟩ := hs.exists_shift ha (hin.place_le hl)
      obtain ⟨s', hc, hs'⟩ := ih hl hs
      exact ⟨s', .faultNext hsa ho hi hc, hs'⟩
  | next ha ho hi hin hafter ih ih' =>
      have hl' := hafter.place_le hl
      obtain ⟨us, hsa, hs⟩ := hs.exists_shift ha (hin.place_le hl')
      obtain ⟨s', hc, hs'⟩ := ih hl' hs
      obtain ⟨s'', hc', hs''⟩ := ih' hl hs'
      exact ⟨s'', .next hsa ho hi hc hc', hs''⟩
  | faultWhole _ ih =>
      obtain ⟨s', hc, hs'⟩ := ih hl hs
      exact ⟨s', .faultWhole hc, hs'⟩
  | leftOver _ ha hk ih =>
      obtain ⟨s', hc, hs'⟩ := ih hl hs
      obtain ⟨us, hsa⟩ := hs'.exists_ahead hl ha
      exact ⟨_, .leftOver hc hsa hk, hs'.report _⟩
  | whole _ ha hk ih =>
      obtain ⟨s', hc, hs'⟩ := ih hl hs
      obtain ⟨us, hsa⟩ := hs'.exists_ahead hl ha
      exact ⟨s', .whole hc hsa hk, hs'⟩

/-- The token that is named before a missing parenthesis is the last one that the course takes. -/
theorem exists_passes_unclosed (h : Course room goal r out r')
    (hout : out = .error (.grammar (.unclosed p t))) : ∃ us, r.Passes (us ++ [p]) r' := by
  induction h with
  | number _ _ _ | unreadable _ _ _ | invalid _ _ _ | tooDeep _ _ | closed _ _ _ _ _ _
  | signed _ _ _ _ | last _ _ | leftOver _ _ _ _ | whole _ _ _ _ => cases hout
  | unclosed ha hk hin _ _ hp _ =>
      cases hout
      obtain ⟨us, hu⟩ := hin.exists_passes
      have hpass := ((Passes.shift ha (by simp [hk])).enter.trans hu).report (.unclosed p t)
      obtain ⟨vs, hvs⟩ := hpass.exists_last hp
      exact ⟨vs, hvs ▸ hpass⟩
  | faultWithin ha hk _ ih =>
      obtain ⟨us, hu⟩ := ih hout
      exact ⟨_ :: us, (Passes.shift ha (by simp [hk])).enter.trans hu⟩
  | unsigned _ _ _ ih | faultFirst _ _ ih | faultWhole _ ih => exact ih hout
  | faultUnderSign ha hs _ ih =>
      obtain ⟨us, hu⟩ := ih hout
      exact ⟨_ :: us, (Passes.shift ha (Kind.ne_eof_of_sign? hs)).trans hu⟩
  | faultNext ha ho _ _ ih =>
      obtain ⟨us, hu⟩ := ih hout
      exact ⟨_ :: us, (Passes.shift ha (Rank.ne_eof_of_operator? ho)).trans hu⟩
  | first _ hin _ _ ih =>
      obtain ⟨us, hu⟩ := hin.exists_passes
      obtain ⟨vs, hv⟩ := ih hout
      exact ⟨us ++ vs, by simpa using hu.trans hv⟩
  | next ha ho _ hin _ _ ih =>
      obtain ⟨us, hu⟩ := hin.exists_passes
      obtain ⟨vs, hv⟩ := ih hout
      have hpass := ((Passes.shift ha (Rank.ne_eof_of_operator? ho)).trans hu).trans hv
      exact ⟨_ :: (us ++ vs), by simpa using hpass⟩

end Course

/-! ## lines that agree -/

/-- The tokens of a line up to its first end. -/
def upToEnd (ts : List Token) : List Token := ts.take ((beforeEnd ts).length + 1)

/-- Up to its end a line has its own tokens. -/
theorem getElem?_upToEnd {i : Nat} (hi : i < (upToEnd ts).length) : (upToEnd ts)[i]? = ts[i]? := by
  rw [upToEnd, List.length_take] at hi
  rw [upToEnd, List.getElem?_take, if_pos (by omega)]

/-- The end of the line is one token. -/
theorem length_upToEnd (h : Reading.isLine ts = true) :
    (upToEnd ts).length = (beforeEnd ts).length + 1 := by
  obtain ⟨t, us, hts, -⟩ := exists_beforeEnd h
  have hlength := congrArg List.length hts
  rw [List.length_append, List.length_cons] at hlength
  rw [upToEnd, List.length_take]
  omega

namespace Reading

variable {op : Op}

/-- No place in a line is beyond its first end if the end has not been taken. -/
theorem InLine.place_le (h : r.InLine ts) : r.place ≤ (beforeEnd ts).length := by
  have hbefore : ∀ t ∈ r.consumed.reverse, t.kind ≠ .eof := by simpa using h.before_end
  rw [← h.tokens_eq, tokens, beforeEnd, List.takeWhile_append_of_pos (by simpa using hbefore),
    List.length_append, List.length_reverse]
  exact Nat.le_add_right _ _

/-- Tokens that end with the end of the line do so after any of them but the last. -/
theorem isLine_ahead (h : isLine r.tokens = true) (hp : r.place < r.tokens.length) :
    isLine r.ahead = true := by
  cases ha : r.ahead with
  | nil => simp [tokens, place, ha] at hp
  | cons t us => simpa [isLine, tokens, ha, List.getLast?_append, List.getLast?_cons] using h

/-- An operation that stops within the stretch on which two places agree does the same at both. -/
theorem Alongside.perform (hs : Alongside first last r s) (hop : op.goal? = some goal)
    (hr : isLine r.ahead = true) (hl : (r.perform op).2.place ≤ last) :
    (s.perform op).1 = (r.perform op).1 ∧
      Alongside first last (r.perform op).2 (s.perform op).2 := by
  obtain ⟨out, r', hc, hp⟩ := exists_course hop hr
  rw [hp] at hl ⊢
  obtain ⟨s', hcs, hs'⟩ := hc.alongside hl hs
  rw [← hs.limit, ← hs.depth] at hcs
  rw [perform_of_course hop hcs]
  exact ⟨rfl, hs'⟩

/-- A line is read by its tokens up to its first end. -/
theorem readTokens_congr (hts : isLine ts = true) (hus : isLine us = true)
    (h : upToEnd us = upToEnd ts) : readTokens limit us = readTokens limit ts := by
  obtain ⟨r', hc⟩ : ∃ r', Course limit .whole (.start limit ts) (readTokens limit ts) r' :=
    (readTokens_eq_iff hts).mp rfl
  obtain ⟨vs, hp⟩ := hc.exists_passes
  have hplace := ((InLine.start hts).passes hp).place_le
  have hlength := length_upToEnd hts
  have hs : Alongside 0 r'.place (.start limit ts) (.start limit us) := by
    refine ⟨rfl, rfl, rfl, Nat.zero_le _, fun i _ hi => ?_⟩
    show us[i]? = ts[i]?
    rw [← getElem?_upToEnd (by rw [h]; omega), h, getElem?_upToEnd (by omega)]
  obtain ⟨s', hcs, -⟩ := hc.alongside (Nat.le_refl _) hs
  exact (readTokens_eq_iff hus).mpr ⟨s', hcs⟩

/-- Lines with the same tokens up to the first end are read alike.  An operation that reads a part
of the grammar looks no further than to the token where it stops: at a place in another line, as
deep and as far on, where the tokens are the same from where it begins up to that token, it has the
same answer and stops at the same place and depth.  The token that it names before a missing
parenthesis is the last one that it has taken. -/
theorem perform_lookahead (hts : isLine ts = true) (hus : isLine us = true) :
    (∀ limit, upToEnd us = upToEnd ts → readTokens limit us = readTokens limit ts) ∧
      ∀ (op : Op) (goal : Goal) (r s : Reading), op.goal? = some goal →
        r.tokens = ts → s.tokens = us → r.place < ts.length →
        s.limit = r.limit → s.place = r.place → s.depth = r.depth →
        ((∀ i, r.place ≤ i → i ≤ (r.perform op).2.place → us[i]? = ts[i]?) →
          (s.perform op).1 = (r.perform op).1 ∧
            (s.perform op).2.place = (r.perform op).2.place ∧
            (s.perform op).2.depth = (r.perform op).2.depth) ∧
        ∀ p t, (r.perform op).1 = .error (.grammar (.unclosed p t)) →
          (r.between (r.perform op).2).getLast? = some p := by
  refine ⟨fun limit h => readTokens_congr hts hus h, ?_⟩
  rintro op goal r s hop rfl rfl hplace hlimit hsame hdepth
  have hr := isLine_ahead hts hplace
  constructor
  · intro hagree
    have hs : Alongside r.place (r.perform op).2.place r s :=
      ⟨hlimit, hdepth, hsame, Nat.le_refl _, hagree⟩
    obtain ⟨hanswer, hs'⟩ := hs.perform hop hr (Nat.le_refl _)
    exact ⟨hanswer, hs'.place, hs'.depth⟩
  · intro p t ht
    obtain ⟨out, r', hc, hp⟩ := exists_course hop hr
    rw [hp] at ht ⊢
    obtain ⟨us, hu⟩ := hc.exists_passes_unclosed (error_of_map ht)
    rw [hu.between_eq]
    exact List.getLast?_concat

/-- A group that a number breaks, after a token that is no expression's. -/
def brokenGroup : List Token :=
  [⟨.closeParen, [')']⟩, ⟨.openParen, ['(']⟩, ⟨.number, ['1']⟩, ⟨.number, ['2']⟩, .endOfLine]

/-- The same group after another token, and before one. -/
def brokenGroupWithin : List Token :=
  [⟨.star, ['*']⟩, ⟨.openParen, ['(']⟩, ⟨.number, ['1']⟩, ⟨.number, ['2']⟩, ⟨.closeParen, [')']⟩,
   .endOfLine]

/-- The place after the first token. -/
def second (ts : List Token) : Reading := ((start 1 ts).perform .advance).2

/-- A fault in a group is found alike, whether more tokens stand behind it or none. -/
theorem perform_lookahead_brokenGroup :
    isLine brokenGroup = true ∧ isLine brokenGroupWithin = true ∧
      isLine (brokenGroup ++ [.endOfLine]) = true ∧
      ((second brokenGroupWithin).perform .whole).1 =
        .error (.grammar (.unclosed ⟨.number, ['1']⟩ ⟨.number, ['2']⟩)) ∧
      ((second brokenGroupWithin).perform .whole).2.place = 3 ∧
      ((second brokenGroup).between ((second brokenGroup).perform .whole).2).getLast? =
        some ⟨.number, ['1']⟩ ∧
      readTokens 1 (brokenGroup ++ [.endOfLine]) = readTokens 1 brokenGroup := by
  have h : isLine brokenGroup = true := rfl
  have hwithin : isLine brokenGroupWithin = true := rfl
  have hmore : isLine (brokenGroup ++ [.endOfLine]) = true := rfl
  have hagree : ∀ i, 1 ≤ i → i ≤ 3 → brokenGroupWithin[i]? = brokenGroup[i]? := by
    intro i h₁ h₃
    obtain rfl | rfl | rfl : i = 1 ∨ i = 2 ∨ i = 3 := by omega
    all_goals rfl
  obtain ⟨hsame, hnamed⟩ := (perform_lookahead h hwithin).2 .whole .whole (second brokenGroup)
    (second brokenGroupWithin) rfl rfl rfl (by decide) rfl rfl rfl
  obtain ⟨hanswer, hplace, -⟩ := hsame hagree
  exact ⟨h, hwithin, hmore, hanswer, hplace, hnamed _ _ rfl,
    (perform_lookahead h hmore).1 1 rfl⟩

end Reading

end LineCalc
