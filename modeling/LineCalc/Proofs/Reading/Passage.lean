import LineCalc.Reading

/-!
# LineCalc.Proofs.Reading.Passage

How a reading moves.  `Passes r ts r'` says that `r'` is further than `r` by
the tokens `ts`, none of which is the end of the line.  Passages compose, and
a reading whose tokens end with the end of the line keeps a token ahead
however far it gets: `Passes.isLine`.
-/

namespace LineCalc

namespace Kind

theorem ne_eof_of_sign? {k : Kind} {s : Sign} (h : k.sign? = some s) : k ≠ .eof := by
  rintro rfl
  simp [sign?] at h

theorem operator?_of_additive? {k : Kind} {o : Operator} (h : k.additive? = some o) :
    k.operator? = some o := by
  simp [operator?, h]

/-- A product or quotient is an operator, since none is a sum or difference. -/
theorem operator?_of_multiplicative? {k : Kind} {o : Operator}
    (h : k.multiplicative? = some o) : k.operator? = some o := by
  cases k <;> simp_all [operator?, additive?, multiplicative?]

theorem ne_eof_of_operator? {k : Kind} {o : Operator} (h : k.operator? = some o) : k ≠ .eof := by
  rintro rfl
  simp [operator?, additive?, multiplicative?] at h

theorem not_operand_of_sign? {k : Kind} {s : Sign} (h : k.sign? = some s) :
    k ≠ .number ∧ k ≠ .error := by
  cases k <;> simp_all [sign?]

theorem not_operand_of_operator? {k : Kind} {o : Operator} (h : k.operator? = some o) :
    k ≠ .number ∧ k ≠ .error := by
  cases k <;> simp_all [operator?, additive?, multiplicative?]

end Kind

namespace Reading

variable {r r' r'' : Reading} {t : Token} {ts us : List Token}

/-! ## the fields of a place after a step -/

theorem ahead_shift (h : r.ahead = t :: ts) : r.shift.ahead = ts := by
  simp [shift, h]

theorem consumed_shift (h : r.ahead = t :: ts) : r.shift.consumed = t :: r.consumed := by
  simp [shift, h]

@[simp] theorem depth_shift (r : Reading) : r.shift.depth = r.depth := rfl

@[simp] theorem depth_enter (r : Reading) : r.enter.depth = r.depth + 1 := rfl

@[simp] theorem depth_leave (r : Reading) : r.leave.depth = r.depth - 1 := rfl

@[simp] theorem limit_shift (r : Reading) : r.shift.limit = r.limit := rfl

@[simp] theorem limit_enter (r : Reading) : r.enter.limit = r.limit := rfl

/-- The place further by some tokens, where others are ahead. -/
def past (r : Reading) (ts more : List Token) : Reading :=
  { r with consumed := ts.reverse ++ r.consumed, ahead := more }

/-- A shift is a passage over one token. -/
theorem shift_eq_past (h : r.ahead = t :: ts) : r.shift = r.past [t] ts := by
  simp [shift, past, h]

/-- Two passages are one over the tokens of both. -/
theorem past_past (r : Reading) (ts us vs ws : List Token) :
    (r.past ts us).past vs ws = r.past (ts ++ vs) ws := by
  simp [past]

theorem past_shift (h : r.ahead = t :: ts) (us more : List Token) :
    r.shift.past us more = r.past (t :: us) more := by
  rw [shift_eq_past h, past_past]
  rfl

/-! ## lines -/

theorem exists_cons_of_isLine (h : isLine ts = true) : ∃ t us, ts = t :: us := by
  cases ts with
  | nil => simp [isLine] at h
  | cons t us => exact ⟨t, us, rfl⟩

/-- What comes after tokens before the end of the line still ends with it. -/
theorem isLine_of_append (hts : ∀ t ∈ ts, t.kind ≠ .eof) (h : isLine (ts ++ us) = true) :
    isLine us = true := by
  cases us with
  | nil =>
      simp only [List.append_nil, isLine, Option.any_eq_true, decide_eq_true_eq] at h
      obtain ⟨t, ht, hk⟩ := h
      exact absurd hk (hts t (List.mem_of_getLast? ht))
  | cons u us => simpa [isLine, List.getLast?_cons] using h

/-- Tokens in front of a line make a line. -/
theorem isLine_append (ts : List Token) (h : isLine us = true) : isLine (ts ++ us) = true := by
  obtain ⟨t, us, rfl⟩ := exists_cons_of_isLine h
  simpa [isLine, List.getLast?_append, List.getLast?_cons] using h

/-! ## passages -/

/-- The second place is further than the first by some tokens before the end of the line. -/
structure Passes (r : Reading) (ts : List Token) (r' : Reading) : Prop where
  ahead : r.ahead = ts ++ r'.ahead
  consumed : r'.consumed = ts.reverse ++ r.consumed
  limit : r'.limit = r.limit
  before_end : ∀ t ∈ ts, t.kind ≠ .eof

namespace Passes

theorem refl (r : Reading) : Passes r [] r := ⟨rfl, rfl, rfl, by simp⟩

theorem shift (h : r.ahead = t :: ts) (hk : t.kind ≠ .eof) : Passes r [t] r.shift :=
  ⟨by rw [h, ahead_shift h]; rfl, consumed_shift h, rfl, by simpa using hk⟩

theorem enter (h : Passes r ts r') : Passes r ts r'.enter := ⟨h.1, h.2, h.3, h.4⟩

theorem leave (h : Passes r ts r') : Passes r ts r'.leave := ⟨h.1, h.2, h.3, h.4⟩

theorem report (h : Passes r ts r') (f : GrammarFault) : Passes r ts (r'.report f) :=
  ⟨h.1, h.2, h.3, h.4⟩

theorem trans (h : Passes r ts r') (h' : Passes r' us r'') : Passes r (ts ++ us) r'' where
  ahead := by rw [h.ahead, h'.ahead, List.append_assoc]
  consumed := by rw [h'.consumed, h.consumed, List.reverse_append, List.append_assoc]
  limit := h'.limit.trans h.limit
  before_end t ht := (List.mem_append.mp ht).elim (h.before_end t) (h'.before_end t)

theorem length_ahead_le (h : Passes r ts r') : r'.ahead.length ≤ r.ahead.length := by
  rw [h.ahead, List.length_append]
  omega

/-- The place after a passage is still one in a line. -/
theorem isLine (h : Passes r ts r') (hr : isLine r.ahead = true) :
    Reading.isLine r'.ahead = true :=
  isLine_of_append h.before_end (h.ahead ▸ hr)

/-- The tokens of a passage are given by its places. -/
theorem unique (h : Passes r ts r') (h' : Passes r us r') : ts = us :=
  List.append_cancel_right (h.ahead.symm.trans h'.ahead)

/-- After a passage of one token or more there is a last token taken. -/
theorem exists_previous (h : Passes r (t :: ts) r') : ∃ p, r'.previous? = some p := by
  rw [previous?, h.consumed]
  cases hl : ((t :: ts).reverse ++ r.consumed).head? with
  | none => simp at hl
  | some p => exact ⟨p, rfl⟩

end Passes

end Reading

end LineCalc
