import LineCalc.Proofs.Reading.Course

/-!
# LineCalc.Proofs.Reading.Derivation

The reader accepts exactly the derivable token lists.  A course that ends
with an expression has taken tokens that derive it (`Course.derived`), and a
derivation is the course of a reading of its tokens (`Derives.course`).  The
derivations lean to the left where the reader goes round to the right, so
the second direction is said of what *follows* a derivation: whatever course
the reader takes after the tokens of an operand, it takes with the operand
in front.
-/

namespace LineCalc

variable {depth limit : Nat} {rank inner : Rank} {ts us : List Token} {t : Token} {e : Expr}

namespace Derives

/-- What is an operand of a rank is of the rank itself. -/
theorem of_operand (hi : rank.operand? = some inner) (h : Derives depth inner ts e) :
    Derives depth rank ts e := by
  cases rank with
  | multiplication => cases hi; exact .factor h
  | addition => cases hi; exact .term h
  | _ => simp [Rank.operand?] at hi

/-- Another operand of a rank joined to what is of that rank. -/
theorem join {o : Operator} {l r : Expr} (ho : rank.operator? t.kind = some o)
    (hi : rank.operand? = some inner) (hl : Derives depth rank ts l)
    (hr : Derives depth inner us r) : Derives depth rank (ts ++ t :: us) (.binary o l r) := by
  cases rank with
  | multiplication => cases hi; exact .multiply hl ho hr
  | addition => cases hi; exact .add hl ho hr
  | _ => simp [Rank.operand?] at hi

/-- The tokens of an expression come before the end of the line. -/
theorem before_end (h : Derives depth rank ts e) : ∀ t ∈ ts, t.kind ≠ .eof := by
  induction h with
  | number hk _ => simp [hk]
  | parentheses ho hc _ ih => simpa [or_imp, forall_and, ho, hc] using ih
  | unsigned _ ih | factor _ ih | term _ ih => exact ih
  | signed hs _ ih => simpa [Kind.ne_eof_of_sign? hs] using ih
  | multiply _ ho _ ihl ihr =>
      have hk := Kind.ne_eof_of_operator? (Kind.operator?_of_multiplicative? ho)
      simpa [or_imp, forall_and, hk] using ⟨ihl, ihr⟩
  | add _ ho _ ihl ihr =>
      have hk := Kind.ne_eof_of_operator? (Kind.operator?_of_additive? ho)
      simpa [or_imp, forall_and, hk] using ⟨ihl, ihr⟩

end Derives

/-! ## from a course to a derivation -/

/-- Between two places, the tokens of a goal derive an expression; what comes after an operand
derives it with the tokens of the operand in front. -/
def Goal.Derived (room : Nat) (r r' : Reading) (e : Expr) : Goal → Prop
  | .whole => ∃ ts t us, r.Passes ts r' ∧ Derives room .addition ts e ∧
      r'.ahead = t :: us ∧ t.kind = .eof
  | .part rank => ∃ ts, r.Passes ts r' ∧ Derives room rank ts e
  | .after rank left => ∀ us, Derives room rank us left →
      ∃ ts, r.Passes ts r' ∧ Derives room rank (us ++ ts) e

/-- A course that ends with an expression has taken the tokens of it. -/
theorem Course.derived {room : Nat} {goal : Goal} {r r' : Reading}
    {out : Except Reading.Fault Expr} (h : Course room goal r out r') (he : out = .ok e) :
    goal.Derived room r r' e := by
  induction h generalizing e with
  | number ha hk hv =>
      cases he
      exact ⟨_, .shift ha (by simp [hk]), .number hk hv⟩
  | closed ha hk _ hc hck ih =>
      obtain ⟨us, hu, hd⟩ := ih he
      exact ⟨_, (((Reading.Passes.shift ha (by simp [hk])).enter.trans hu).trans
        (.shift hc (by simp [hck]))).leave, .parentheses hk hck hd⟩
  | unsigned _ _ _ ih =>
      obtain ⟨us, hu, hd⟩ := ih he
      exact ⟨_, hu, .unsigned hd⟩
  | signed ha hs _ ih =>
      cases he
      obtain ⟨us, hu, hd⟩ := ih rfl
      exact ⟨_, (Reading.Passes.shift ha (Kind.ne_eof_of_sign? hs)).trans hu, .signed hs hd⟩
  | first hi _ _ ih ih' =>
      obtain ⟨us, hu, hd⟩ := ih rfl
      obtain ⟨vs, hv, hd'⟩ := ih' he us (hd.of_operand hi)
      exact ⟨_, hu.trans hv, hd'⟩
  | last _ _ =>
      cases he
      intro us hd
      exact ⟨[], .refl _, by simpa using hd⟩
  | next ha ho hi _ _ ih ih' =>
      intro us hd
      obtain ⟨vs, hv, hd'⟩ := ih rfl
      obtain ⟨ws, hw, hd''⟩ := ih' he _ (hd.join ho hi hd')
      have hp := Reading.Passes.shift ha (Rank.ne_eof_of_operator? ho)
      exact ⟨_, (hp.trans hv).trans hw, by simpa using hd''⟩
  | whole _ ha hk ih =>
      obtain ⟨us, hu, hd⟩ := ih he
      exact ⟨_, _, _, hu, hd, ha, hk⟩
  | _ => cases he

/-! ## from a derivation to a course -/

/-- After the tokens of an expression of a rank, the reader goes on as it does after an operand of
that rank.  The operands of an addition are read to their end, so no product sign may follow. -/
def Rank.Leads (depth : Nat) (r : Reading) (e : Expr) (r' : Reading) : Rank → Prop
  | .multiplication => ∀ out r'', Course depth (.after .multiplication e) r' out r'' →
      Course depth (.part .multiplication) r out r''
  | .addition => (∃ t us, r'.ahead = t :: us ∧ t.kind.multiplicative? = none) →
      ∀ out r'', Course depth (.after .addition e) r' out r'' →
        Course depth (.part .addition) r out r''
  | rank => Course depth (.part rank) r (.ok e) r'

/-- A multiplication that no product sign follows has come to its end. -/
theorem Rank.Leads.multiplication {r r' : Reading} (h : multiplication.Leads depth r e r')
    (hf : ∃ t us, r'.ahead = t :: us ∧ t.kind.multiplicative? = none) :
    Course depth (.part .multiplication) r (.ok e) r' := by
  obtain ⟨t, us, ha, hk⟩ := hf
  exact h _ _ (.last ha hk)

/-- An addition that no operator follows has come to its end. -/
theorem Rank.Leads.addition {r r' : Reading} (h : addition.Leads depth r e r')
    (ha : r'.ahead = t :: us) (hk : t.kind.operator? = none) :
    Course depth (.part .addition) r (.ok e) r' := by
  have hk' : t.kind.additive? = none ∧ t.kind.multiplicative? = none := by
    simpa [Kind.operator?] using hk
  exact h ⟨t, us, ha, hk'.2⟩ _ _ (.last ha hk'.1)

/-- A primary does not begin with a sign. -/
theorem Derives.exists_unsigned (h : Derives depth .primary ts e) :
    ∃ t us, ts = t :: us ∧ t.kind.sign? = none := by
  cases h with
  | number hk _ => exact ⟨_, _, rfl, by rw [hk]; rfl⟩
  | parentheses ho _ _ => exact ⟨_, _, rfl, by rw [ho]; rfl⟩

/-- A derivation is the course of a reading of its tokens. -/
theorem Derives.leads (h : Derives depth rank ts e) {r : Reading} {more : List Token}
    (ha : r.ahead = ts ++ more) : rank.Leads depth r e (r.past ts more) := by
  induction h generalizing r more with
  | @number _ t x hk hv =>
      have ha : r.ahead = t :: more := ha
      rw [← Reading.shift_eq_past ha]
      exact .number ha hk hv
  | @parentheses _ opening closing ts e ho hc _ ih =>
      have ha : r.ahead = opening :: (ts ++ closing :: more) := by simpa using ha
      have hi : r.shift.enter.ahead = ts ++ closing :: more := Reading.ahead_shift ha
      have inner := (ih hi).addition rfl (by rw [hc]; rfl)
      have hend : (r.shift.enter.past ts (closing :: more)).shift.leave =
          r.past (opening :: ts ++ [closing]) more := by
        rw [Reading.shift_eq_past ha]
        simp [Reading.past, Reading.shift, Reading.enter, Reading.leave]
      exact hend ▸ Course.closed ha ho inner rfl hc
  | @unsigned _ ts e hd ih =>
      obtain ⟨t, us, rfl, hs⟩ := hd.exists_unsigned
      exact Course.unsigned (by rw [ha, List.cons_append]) hs (ih ha)
  | @signed _ t s ts e hs _ ih =>
      have ha : r.ahead = t :: (ts ++ more) := ha
      rw [← Reading.past_shift ha]
      exact Course.signed ha hs (ih (Reading.ahead_shift ha))
  | factor _ ih =>
      intro out r'' hr
      exact .first rfl (ih ha) hr
  | @multiply _ t o ts us left right _ ho _ ihl ihr =>
      intro out r'' hr
      have ha : r.ahead = ts ++ t :: (us ++ more) := by simpa using ha
      refine ihl ha _ _ ?_
      rw [← Reading.past_past r ts (t :: (us ++ more)), ← Reading.past_shift rfl] at hr
      exact .next rfl ho rfl (ihr rfl) hr
  | term _ ih =>
      intro hf out r'' hr
      exact .first rfl ((ih ha).multiplication hf) hr
  | @add _ t o ts us left right _ ho _ ihl ihr =>
      intro hf out r'' hr
      -- the multiplications before a sum sign have ended, since it is no product sign
      have hk : t.kind.multiplicative? = none := by
        cases h : t.kind <;> simp_all [Kind.additive?, Kind.multiplicative?]
      have ha : r.ahead = ts ++ t :: (us ++ more) := by simpa using ha
      refine ihl ha ⟨t, _, rfl, hk⟩ _ _ ?_
      rw [← Reading.past_past r ts (t :: (us ++ more)), ← Reading.past_shift rfl] at hr
      exact .next rfl ho rfl ((ihr rfl).multiplication hf) hr

/-! ## lines -/

/-- The tokens before the first end of the line. -/
def beforeEnd (ts : List Token) : List Token := ts.takeWhile (·.kind ≠ .eof)

/-- A line is the tokens before its first end, and that end with what may come after it. -/
theorem exists_beforeEnd (h : Reading.isLine ts = true) :
    ∃ t us, ts = beforeEnd ts ++ t :: us ∧ t.kind = .eof := by
  induction ts with
  | nil => simp [Reading.isLine] at h
  | cons t ts ih =>
      by_cases hk : t.kind = .eof
      · exact ⟨t, ts, by simp [beforeEnd, hk], hk⟩
      · have hl : Reading.isLine ts = true := by
          have ht : ∀ u ∈ [t], u.kind ≠ .eof := by simpa using hk
          exact Reading.isLine_of_append ht h
        obtain ⟨u, us, hts, hu⟩ := ih hl
        exact ⟨u, us, by simpa [beforeEnd, hk] using hts, hu⟩

/-- Tokens before an end of the line are those before the first one. -/
theorem beforeEnd_append (hts : ∀ t ∈ ts, t.kind ≠ .eof) (ht : t.kind = .eof) :
    beforeEnd (ts ++ t :: us) = ts := by
  rw [beforeEnd, List.takeWhile_append_of_pos (by simpa using hts)]
  simp [ht]

/-- Under any limit, the reader accepts exactly the lines that the grammar derives. -/
theorem readTokens_eq_ok_iff (h : Reading.isLine ts = true) :
    readTokens limit ts = .ok e ↔ Derives limit .addition (beforeEnd ts) e := by
  rw [readTokens_eq_iff h]
  constructor
  · rintro ⟨r', hc⟩
    obtain ⟨us, t, vs, hp, hd, ha, hk⟩ := hc.derived rfl
    have hts : ts = us ++ t :: vs := ha ▸ hp.ahead
    rwa [hts, beforeEnd_append hp.before_end hk]
  · intro hd
    obtain ⟨t, us, hts, hk⟩ := exists_beforeEnd h
    have hc := (hd.leads (r := .start limit ts) hts).addition rfl (by rw [hk]; rfl)
    exact ⟨_, .whole hc rfl hk⟩

/-- Tokens derive one expression at most. -/
theorem Derives.unique {e' : Expr} {wider : Nat} (h : Derives depth .addition ts e)
    (h' : Derives wider .addition ts e') : e = e' := by
  have hline : Reading.isLine (ts ++ [Token.endOfLine]) = true := by
    simp [Reading.isLine, Token.endOfLine]
  have hbefore : beforeEnd (ts ++ [Token.endOfLine]) = ts := beforeEnd_append h.before_end rfl
  have hl := Nat.le_max_left depth wider
  have hr := Nat.le_max_right depth wider
  have he := (readTokens_eq_ok_iff hline).mpr (hbefore.symm ▸ h.mono hl)
  have he' := (readTokens_eq_ok_iff hline).mpr (hbefore.symm ▸ h'.mono hr)
  exact Except.ok.inj (he.symm.trans he')

end LineCalc
