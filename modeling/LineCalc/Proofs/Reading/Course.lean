import LineCalc.Grammar
import LineCalc.Proofs.Reading.Passage

/-!
# LineCalc.Proofs.Reading.Course

The course of a reading as a relation.  `Course room goal r out r'` says that
the reader, set on `goal` at the place `r` with room for so many more
parentheses, answers `out` and stops at the place `r'`.  There is one rule
for each way through a part of the grammar, the failures included, so what
holds of every reading is an induction over these rules:

* `Course.run` — what a course says is what the reader does;
* `Course.exists_part` — in a line, every part of the grammar has a course;
* `readTokens_eq_iff` — both together, for the reading of a list of tokens.
-/

namespace LineCalc

namespace Rank

/-- The rank of the operands of a rank that has operators. -/
def operand? : Rank → Option Rank
  | multiplication => some unary
  | addition => some multiplication
  | _ => none

/-- The operators that join the operands of a rank. -/
def operator? : Rank → Kind → Option Operator
  | multiplication => Kind.multiplicative?
  | addition => Kind.additive?
  | _ => fun _ => none

/-- The reader of a rank, over the reader of what is one level deeper. -/
def reader : Rank → (Token → Reader Expr) → Reader Expr
  | primary => Reader.primaryOver
  | unary => Reader.unaryOver
  | multiplication => Reader.multiplicationOver
  | addition => Reader.additionOver

theorem operator?_of_rank {rank : Rank} {k : Kind} {o : Operator}
    (h : rank.operator? k = some o) : k.operator? = some o := by
  cases rank with
  | multiplication => exact Kind.operator?_of_multiplicative? h
  | addition => exact Kind.operator?_of_additive? h
  | _ => simp [operator?] at h

theorem ne_eof_of_operator? {rank : Rank} {k : Kind} {o : Operator}
    (h : rank.operator? k = some o) : k ≠ .eof :=
  Kind.ne_eof_of_operator? (operator?_of_rank h)

/-- A rank with operands is read by joining them. -/
theorem reader_eq_joined {rank inner : Rank} (h : rank.operand? = some inner)
    (deeper : Token → Reader Expr) :
    rank.reader deeper = Reader.joined rank.operator? (inner.reader deeper) := by
  cases rank with
  | multiplication => cases h; rfl
  | addition => cases h; rfl
  | _ => simp [operand?] at h

end Rank

/-- What a reader is set on. -/
inductive Goal where
  | whole
  | part (rank : Rank)
  /-- The operators of a rank and their right operands, after an operand. -/
  | after (rank : Rank) (left : Expr)

/-- How a reading goes. -/
inductive Course : Nat → Goal → Reading → Except Reading.Fault Expr → Reading → Prop where
  | number {room : Nat} {r : Reading} {t : Token} {ts : List Token} {x : Float} :
      r.ahead = t :: ts → t.kind = .number → t.value = .ok x →
      Course room (.part .primary) r (.ok (.literal x t.lexeme)) r.shift
  | unreadable {room : Nat} {r : Reading} {t : Token} {ts : List Token} {f : ValueFault} :
      r.ahead = t :: ts → t.kind = .number → t.value = .error f →
      Course room (.part .primary) r (.error (.value f)) r.shift
  | invalid {room : Nat} {r : Reading} {t : Token} {ts : List Token} :
      r.ahead = t :: ts → t.kind ≠ .number → t.kind ≠ .openParen →
      Course room (.part .primary) r (.error (.grammar (.invalid t))) (r.report (.invalid t))
  | tooDeep {r : Reading} {t : Token} {ts : List Token} :
      r.ahead = t :: ts → t.kind = .openParen →
      Course 0 (.part .primary) r (.error (.grammar (.tooDeep t)))
        (r.shift.enter.report (.tooDeep t))
  | faultWithin {room : Nat} {r r' : Reading} {t : Token} {ts : List Token} {f : Reading.Fault} :
      r.ahead = t :: ts → t.kind = .openParen →
      Course room (.part .addition) r.shift.enter (.error f) r' →
      Course (room + 1) (.part .primary) r (.error f) r'
  | unclosed {room : Nat} {r r' : Reading} {t p c : Token} {ts cs : List Token} {e : Expr} :
      r.ahead = t :: ts → t.kind = .openParen →
      Course room (.part .addition) r.shift.enter (.ok e) r' →
      r'.ahead = c :: cs → c.kind ≠ .closeParen → r'.previous? = some p →
      Course (room + 1) (.part .primary) r (.error (.grammar (.unclosed p c)))
        (r'.report (.unclosed p c))
  | closed {room : Nat} {r r' : Reading} {t c : Token} {ts cs : List Token} {e : Expr} :
      r.ahead = t :: ts → t.kind = .openParen →
      Course room (.part .addition) r.shift.enter (.ok e) r' →
      r'.ahead = c :: cs → c.kind = .closeParen →
      Course (room + 1) (.part .primary) r (.ok e) r'.shift.leave
  | unsigned {room : Nat} {r r' : Reading} {t : Token} {ts : List Token}
      {out : Except Reading.Fault Expr} :
      r.ahead = t :: ts → t.kind.sign? = none → Course room (.part .primary) r out r' →
      Course room (.part .unary) r out r'
  | faultUnderSign {room : Nat} {r r' : Reading} {t : Token} {ts : List Token} {s : Sign}
      {f : Reading.Fault} :
      r.ahead = t :: ts → t.kind.sign? = some s →
      Course room (.part .primary) r.shift (.error f) r' →
      Course room (.part .unary) r (.error f) r'
  | signed {room : Nat} {r r' : Reading} {t : Token} {ts : List Token} {s : Sign} {e : Expr} :
      r.ahead = t :: ts → t.kind.sign? = some s →
      Course room (.part .primary) r.shift (.ok e) r' →
      Course room (.part .unary) r (.ok (.signed s e)) r'
  | faultFirst {room : Nat} {rank inner : Rank} {r r' : Reading} {f : Reading.Fault} :
      rank.operand? = some inner → Course room (.part inner) r (.error f) r' →
      Course room (.part rank) r (.error f) r'
  | first {room : Nat} {rank inner : Rank} {r r' r'' : Reading} {left : Expr}
      {out : Except Reading.Fault Expr} :
      rank.operand? = some inner → Course room (.part inner) r (.ok left) r' →
      Course room (.after rank left) r' out r'' → Course room (.part rank) r out r''
  | last {room : Nat} {rank : Rank} {r : Reading} {t : Token} {ts : List Token} {left : Expr} :
      r.ahead = t :: ts → rank.operator? t.kind = none →
      Course room (.after rank left) r (.ok left) r
  | faultNext {room : Nat} {rank inner : Rank} {r r' : Reading} {t : Token} {ts : List Token}
      {o : Operator} {left : Expr} {f : Reading.Fault} :
      r.ahead = t :: ts → rank.operator? t.kind = some o → rank.operand? = some inner →
      Course room (.part inner) r.shift (.error f) r' →
      Course room (.after rank left) r (.error f) r'
  | next {room : Nat} {rank inner : Rank} {r r' r'' : Reading} {t : Token} {ts : List Token}
      {o : Operator} {left right : Expr} {out : Except Reading.Fault Expr} :
      r.ahead = t :: ts → rank.operator? t.kind = some o → rank.operand? = some inner →
      Course room (.part inner) r.shift (.ok right) r' →
      Course room (.after rank (.binary o left right)) r' out r'' →
      Course room (.after rank left) r out r''
  | faultWhole {room : Nat} {r r' : Reading} {f : Reading.Fault} :
      Course room (.part .addition) r (.error f) r' → Course room .whole r (.error f) r'
  | leftOver {room : Nat} {r r' : Reading} {t : Token} {ts : List Token} {e : Expr} :
      Course room (.part .addition) r (.ok e) r' → r'.ahead = t :: ts → t.kind ≠ .eof →
      Course room .whole r (.error (.grammar (.leftOver t))) (r'.report (.leftOver t))
  | whole {room : Nat} {r r' : Reading} {t : Token} {ts : List Token} {e : Expr} :
      Course room (.part .addition) r (.ok e) r' → r'.ahead = t :: ts → t.kind = .eof →
      Course room .whole r (.ok e) r'

/-! ## what the parts of the grammar do -/

namespace Reader

variable {r r' : Reading} {t c p : Token} {ts cs ahead : List Token} {e left right : Expr}
variable {f : Reading.Fault} {out : Except Reading.Fault Expr × Reading}
variable {rank : Kind → Option Operator} {operand : Reader Expr} {deeper : Token → Reader Expr}

/-- Behind its first operand a rank goes on as a chain. -/
theorem runOn_joined_ok (h : runOn operand r = (.ok left, r')) :
    runOn (joined rank operand) r = runOn (chain rank operand r'.ahead left) r' := by
  rw [joined, runOn_bind_ok h]
  rfl

/-- A chain ends where the next token is no operator of its rank. -/
theorem runOn_chain_last (h : r.ahead = t :: ts) (ht : rank t.kind = none) :
    runOn (chain rank operand (c :: ahead) left) r = (.ok left, r) := by
  rw [chain, runOn_bind_ok (runOn_peek h)]
  simp [ht]

/-- At an operator of its rank a chain reads a further operand. -/
theorem runOn_chain_next {o : Operator} (h : r.ahead = t :: ts) (ht : rank t.kind = some o)
    (ho : t.kind.operator? = some o) :
    runOn (chain rank operand (c :: ahead) left) r =
      runOn (operand >>= fun right => chain rank operand ahead (.binary o left right)) r.shift := by
  rw [chain, runOn_bind_ok (runOn_peek h)]
  simp only [ht, Option.isSome_some, if_true]
  rw [runOn_bind_ok (runOn_advance h (Kind.ne_eof_of_operator? ho))]
  simp only [Expr.ofOperator, ho]
  rfl

/-- At a number a literal is read. -/
theorem runOn_primaryOver_number (h : r.ahead = t :: ts) (hk : t.kind = .number) :
    runOn (primaryOver deeper) r = runOn (literal t) r.shift := by
  rw [primaryOver, runOn_bind_ok (runOn_peek h)]
  simp only [hk]
  rw [runOn_bind_ok (runOn_advance h (by simp [hk]))]

/-- A number with a value is a literal. -/
theorem runOn_literal {x : Float} (h : t.value = .ok x) :
    runOn (literal t) r = (.ok (.literal x t.lexeme), r) := by
  simp only [literal, Expr.ofNumber, h]
  rfl

/-- A number without a value is a fault of the value. -/
theorem runOn_literal_error {f : ValueFault} (h : t.value = .error f) :
    runOn (literal t) r = (.error (.value f), r) := by
  simp only [literal, Expr.ofNumber, h]
  rfl

/-- Anything but a number or an opening parenthesis is reported where an operand has to be. -/
theorem runOn_primaryOver_invalid (h : r.ahead = t :: ts) (hn : t.kind ≠ .number)
    (ho : t.kind ≠ .openParen) :
    runOn (primaryOver deeper) r = (.error (.grammar (.invalid t)), r.report (.invalid t)) := by
  rw [primaryOver, runOn_bind_ok (runOn_peek h)]
  simp only
  exact runOn_fail _ _

/-- At an opening parenthesis what is between it and its end is read, one level deeper. -/
theorem runOn_primaryOver_open (h : r.ahead = t :: ts) (hk : t.kind = .openParen) :
    runOn (primaryOver deeper) r = runOn (deeper t >>= closing) r.shift.enter := by
  rw [primaryOver, runOn_bind_ok (runOn_peek h)]
  simp only [hk]
  rw [parenthesised, runOn_bind_ok (runOn_advance h (by simp [hk])),
    runOn_bind_ok (runOn_modify _ _)]

/-- At a closing parenthesis the group ends and the level is left. -/
theorem runOn_closing (h : r.ahead = c :: cs) (hk : c.kind = .closeParen) :
    runOn (closing e) r = (.ok e, r.shift.leave) := by
  rw [closing, runOn_bind_ok (runOn_peek h)]
  simp only [hk, if_true]
  rw [runOn_bind_ok (runOn_advance h (by simp [hk]))]
  rfl

/-- Another token where a group has to end is reported with the token before it. -/
theorem runOn_closing_error (h : r.ahead = c :: cs) (hk : c.kind ≠ .closeParen)
    (hp : r.previous? = some p) :
    runOn (closing e) r = (.error (.grammar (.unclosed p c)), r.report (.unclosed p c)) := by
  rw [closing, runOn_bind_ok (runOn_peek h)]
  simp only [hk, if_false]
  rw [runOn_bind_ok (runOn_previous hp), runOn_bind_ok (runOn_peek h)]
  exact runOn_fail _ _

/-- Without a sign a primary is read. -/
theorem runOn_unaryOver_unsigned (h : r.ahead = t :: ts) (hs : t.kind.sign? = none) :
    runOn (unaryOver deeper) r = runOn (primaryOver deeper) r := by
  rw [unaryOver, runOn_bind_ok (runOn_peek h)]
  simp [hs]

/-- At a sign a primary is read behind it. -/
theorem runOn_unaryOver_signed {s : Sign} (h : r.ahead = t :: ts) (hs : t.kind.sign? = some s) :
    runOn (unaryOver deeper) r =
      runOn (primaryOver deeper >>= fun e => pure (.signed s e)) r.shift := by
  rw [unaryOver, runOn_bind_ok (runOn_peek h)]
  simp only [hs, Option.isSome_some, if_true]
  rw [runOn_bind_ok (runOn_advance h (Kind.ne_eof_of_sign? hs))]
  simp only [Expr.ofSign, hs]
  rfl

/-- An expression is read as a sum, with the room that the limit leaves at this depth. -/
theorem runOn_expression (r : Reading) :
    runOn expression r = runOn (Rank.addition.reader (within (r.limit - r.depth))) r :=
  runOn_here _ _

end Reader

namespace Course

variable {room : Nat} {goal : Goal} {r r' : Reading} {out : Except Reading.Fault Expr}

/-- A reading only ever moves on. -/
theorem exists_passes (h : Course room goal r out r') : ∃ ts, r.Passes ts r' := by
  induction h with
  | number ha hk _ => exact ⟨_, .shift ha (by simp [hk])⟩
  | unreadable ha hk _ => exact ⟨_, .shift ha (by simp [hk])⟩
  | invalid _ _ _ => exact ⟨_, (Reading.Passes.refl _).report _⟩
  | tooDeep ha hk => exact ⟨_, ((Reading.Passes.shift ha (by simp [hk])).enter).report _⟩
  | faultWithin ha hk _ ih =>
      obtain ⟨us, hu⟩ := ih
      exact ⟨_, (Reading.Passes.shift ha (by simp [hk])).enter.trans hu⟩
  | unclosed ha hk _ _ _ _ ih =>
      obtain ⟨us, hu⟩ := ih
      exact ⟨_, ((Reading.Passes.shift ha (by simp [hk])).enter.trans hu).report _⟩
  | closed ha hk _ hc hck ih =>
      obtain ⟨us, hu⟩ := ih
      exact ⟨_, (((Reading.Passes.shift ha (by simp [hk])).enter.trans hu).trans
        (.shift hc (by simp [hck]))).leave⟩
  | unsigned _ _ _ ih => exact ih
  | faultUnderSign ha hs _ ih | signed ha hs _ ih =>
      obtain ⟨us, hu⟩ := ih
      exact ⟨_, (Reading.Passes.shift ha (Kind.ne_eof_of_sign? hs)).trans hu⟩
  | faultFirst _ _ ih => exact ih
  | first _ _ _ ih ih' =>
      obtain ⟨us, hu⟩ := ih
      obtain ⟨vs, hv⟩ := ih'
      exact ⟨_, hu.trans hv⟩
  | last _ _ => exact ⟨_, .refl _⟩
  | faultNext ha ho _ _ ih =>
      obtain ⟨us, hu⟩ := ih
      exact ⟨_, (Reading.Passes.shift ha (Rank.ne_eof_of_operator? ho)).trans hu⟩
  | next ha ho _ _ _ ih ih' =>
      obtain ⟨us, hu⟩ := ih
      obtain ⟨vs, hv⟩ := ih'
      exact ⟨_, ((Reading.Passes.shift ha (Rank.ne_eof_of_operator? ho)).trans hu).trans hv⟩
  | faultWhole _ ih => exact ih
  | leftOver _ _ _ ih =>
      obtain ⟨us, hu⟩ := ih
      exact ⟨_, hu.report _⟩
  | whole _ _ _ ih => exact ih

theorem length_ahead_le (h : Course room goal r out r') : r'.ahead.length ≤ r.ahead.length := by
  obtain ⟨ts, ht⟩ := h.exists_passes
  exact ht.length_ahead_le

/-- What is ahead behind a course was ahead of it. -/
theorem mem_ahead (h : Course room goal r out r') {t : Token} (ht : t ∈ r'.ahead) :
    t ∈ r.ahead := by
  obtain ⟨ts, hp⟩ := h.exists_passes
  rw [hp.ahead]
  exact List.mem_append_right _ ht

/-- A reading fails by the grammar, or at a number ahead that has no value. -/
theorem fault_cases (h : Course room goal r out r') {f : Reading.Fault} (hf : out = .error f) :
    (∃ g, f = .grammar g) ∨
      ∃ t ∈ r.ahead, t.kind = .number ∧ ∃ v, t.value = .error v ∧ f = .value v := by
  have later : ∀ {r : Reading} {t : Token} {ts : List Token}, r.ahead = t :: ts →
      ∀ u ∈ r.shift.ahead, u ∈ r.ahead := by
    intro r t ts ha u hu
    rw [Reading.ahead_shift ha] at hu
    exact ha ▸ List.mem_cons_of_mem t hu
  induction h with
  | number _ _ _ | closed _ _ _ _ _ _ | signed _ _ _ _ | last _ _ | whole _ _ _ _ => cases hf
  | @unreadable _ r t ts f ha hk hv =>
      cases hf
      exact .inr ⟨t, ha ▸ List.mem_cons_self, hk, f, hv, rfl⟩
  | invalid _ _ _ | tooDeep _ _ | unclosed _ _ _ _ _ _ _ | leftOver _ _ _ _ =>
      cases hf
      exact .inl ⟨_, rfl⟩
  | faultWithin ha _ _ ih | faultUnderSign ha _ _ ih | faultNext ha _ _ _ ih =>
      exact (ih hf).imp_right fun ⟨t, ht, hv⟩ => ⟨t, later ha t ht, hv⟩
  | unsigned _ _ _ ih | faultFirst _ _ ih | faultWhole _ ih => exact ih hf
  | first _ hc _ _ ih =>
      exact (ih hf).imp_right fun ⟨t, ht, hv⟩ => ⟨t, hc.mem_ahead ht, hv⟩
  | next ha _ _ hc _ _ ih =>
      exact (ih hf).imp_right fun ⟨t, ht, hv⟩ => ⟨t, later ha t (hc.mem_ahead ht), hv⟩

end Course

/-! ## courses and the reader -/

/-- The reader, set on a goal, does as said.  What comes after an operand is read with at least as
many rounds to go as there are tokens ahead. -/
def Goal.Runs (room : Nat) (r : Reading) (result : Except Reading.Fault Expr × Reading) :
    Goal → Prop
  | .whole => r.limit - r.depth = room → Reader.runOn Reader.whole r = result
  | .part rank => Reader.runOn (rank.reader (Reader.within room)) r = result
  | .after rank left => ∀ inner ahead, rank.operand? = some inner →
      r.ahead.length ≤ ahead.length →
      Reader.runOn (Reader.chain rank.operator? (inner.reader (Reader.within room)) ahead left) r =
        result

namespace Course

/-- The rounds that are left cover a token, and the tokens after it. -/
theorem exists_round {r : Reading} {t : Token} {ts ahead : List Token} (ha : r.ahead = t :: ts)
    (hl : r.ahead.length ≤ ahead.length) :
    ∃ c more, ahead = c :: more ∧ ts.length ≤ more.length := by
  cases ahead with
  | nil => simp [ha] at hl
  | cons c more => exact ⟨c, more, rfl, by simpa [ha] using hl⟩

/-- What a course says is what the reader does. -/
theorem run {room : Nat} {goal : Goal} {r r' : Reading} {out : Except Reading.Fault Expr}
    (h : Course room goal r out r') : goal.Runs room r (out, r') := by
  induction h with
  | number ha hk hv =>
      exact (Reader.runOn_primaryOver_number ha hk).trans (Reader.runOn_literal hv)
  | unreadable ha hk hv =>
      exact (Reader.runOn_primaryOver_number ha hk).trans (Reader.runOn_literal_error hv)
  | invalid ha hn ho => exact Reader.runOn_primaryOver_invalid ha hn ho
  | tooDeep ha hk =>
      exact (Reader.runOn_primaryOver_open ha hk).trans
        (Reader.runOn_bind_error (Reader.runOn_fail _ _))
  | faultWithin ha hk _ ih =>
      exact (Reader.runOn_primaryOver_open ha hk).trans (Reader.runOn_bind_error ih)
  | unclosed ha hk _ hc hck hp ih =>
      exact (Reader.runOn_primaryOver_open ha hk).trans
        ((Reader.runOn_bind_ok ih).trans (Reader.runOn_closing_error hc hck hp))
  | closed ha hk _ hc hck ih =>
      exact (Reader.runOn_primaryOver_open ha hk).trans
        ((Reader.runOn_bind_ok ih).trans (Reader.runOn_closing hc hck))
  | unsigned ha hs _ ih => exact (Reader.runOn_unaryOver_unsigned ha hs).trans ih
  | faultUnderSign ha hs _ ih =>
      exact (Reader.runOn_unaryOver_signed ha hs).trans (Reader.runOn_bind_error ih)
  | signed ha hs _ ih =>
      exact (Reader.runOn_unaryOver_signed ha hs).trans (Reader.runOn_bind_ok ih)
  | faultFirst hi _ ih =>
      rw [Goal.Runs, Rank.reader_eq_joined hi]
      exact Reader.runOn_bind_error ih
  | first hi _ _ ih ih' =>
      rw [Goal.Runs, Rank.reader_eq_joined hi]
      exact (Reader.runOn_joined_ok ih).trans (ih' _ _ hi (Nat.le_refl _))
  | last ha ho =>
      intro inner ahead hi hl
      obtain ⟨c, more, rfl, -⟩ := exists_round ha hl
      exact Reader.runOn_chain_last ha ho
  | faultNext ha ho hi _ ih =>
      intro inner ahead hi' hl
      cases hi.symm.trans hi'
      obtain ⟨c, more, rfl, -⟩ := exists_round ha hl
      exact (Reader.runOn_chain_next ha ho (Rank.operator?_of_rank ho)).trans
        (Reader.runOn_bind_error ih)
  | next ha ho hi hc _ ih ih' =>
      intro inner ahead hi' hl
      cases hi.symm.trans hi'
      obtain ⟨c, more, rfl, hm⟩ := exists_round ha hl
      -- the operand takes no token back, so the rounds left still cover what is ahead
      have left := Nat.le_trans hc.length_ahead_le (Reading.ahead_shift ha ▸ hm)
      exact (Reader.runOn_chain_next ha ho (Rank.operator?_of_rank ho)).trans
        ((Reader.runOn_bind_ok ih).trans (ih' _ _ hi left))
  | faultWhole _ ih =>
      rintro rfl
      exact Reader.runOn_bind_error ((Reader.runOn_expression _).trans ih)
  | leftOver _ ha hk ih =>
      rintro rfl
      rw [Reader.whole, Reader.runOn_bind_ok ((Reader.runOn_expression _).trans ih),
        Reader.runOn_bind_ok (Reader.runOn_peek ha), if_neg hk]
      exact Reader.runOn_fail _ _
  | whole _ ha hk ih =>
      rintro rfl
      rw [Reader.whole, Reader.runOn_bind_ok ((Reader.runOn_expression _).trans ih),
        Reader.runOn_bind_ok (Reader.runOn_peek ha), if_pos hk]
      rfl

/-! ## every part has a course -/

/-- The operators after an operand have a course if their operands have one. -/
theorem exists_after {room : Nat} {rank inner : Rank} (hi : rank.operand? = some inner)
    (operand : ∀ r, Reading.isLine r.ahead = true → ∃ out r', Course room (.part inner) r out r')
    (r : Reading) (hr : Reading.isLine r.ahead = true) (left : Expr) :
    ∃ out r', Course room (.after rank left) r out r' := by
  obtain ⟨t, ts, ha⟩ := Reading.exists_cons_of_isLine hr
  cases ho : rank.operator? t.kind with
  | none => exact ⟨_, _, .last ha ho⟩
  | some o =>
      have hp := Reading.Passes.shift ha (Rank.ne_eof_of_operator? ho)
      obtain ⟨out, r', hc⟩ := operand r.shift (hp.isLine hr)
      cases out with
      | error f => exact ⟨_, _, .faultNext ha ho hi hc⟩
      | ok right =>
          obtain ⟨us, hu⟩ := hc.exists_passes
          have shorter : r'.ahead.length < r.ahead.length := by
            have := hc.length_ahead_le
            rw [Reading.ahead_shift ha] at this
            simp only [ha, List.length_cons]
            omega
          obtain ⟨out, r'', hn⟩ := exists_after hi operand r' (hu.isLine (hp.isLine hr))
            (.binary o left right)
          exact ⟨_, _, .next ha ho hi hc hn⟩
termination_by r.ahead.length

/-- A rank with operators has a course if its operands have one. -/
theorem exists_of_operand {room : Nat} (rank : Rank) {inner : Rank}
    (hi : rank.operand? = some inner)
    (operand : ∀ r, Reading.isLine r.ahead = true → ∃ out r', Course room (.part inner) r out r')
    (r : Reading) (hr : Reading.isLine r.ahead = true) :
    ∃ out r', Course room (.part rank) r out r' := by
  obtain ⟨out, r', hc⟩ := operand r hr
  cases out with
  | error f => exact ⟨_, _, .faultFirst hi hc⟩
  | ok left =>
      obtain ⟨us, hu⟩ := hc.exists_passes
      obtain ⟨out, r'', ha⟩ := exists_after hi operand r' (hu.isLine hr) left
      exact ⟨_, _, .first hi hc ha⟩

/-- A primary has a course if an expression one level deeper has one. -/
theorem exists_primary (room : Nat)
    (deeper : ∀ less, room = less + 1 → ∀ r, Reading.isLine r.ahead = true →
      ∃ out r', Course less (.part .addition) r out r')
    (r : Reading) (hr : Reading.isLine r.ahead = true) :
    ∃ out r', Course room (.part .primary) r out r' := by
  obtain ⟨t, ts, ha⟩ := Reading.exists_cons_of_isLine hr
  by_cases hn : t.kind = .number
  · cases hv : t.value with
    | error f => exact ⟨_, _, .unreadable ha hn hv⟩
    | ok x => exact ⟨_, _, .number ha hn hv⟩
  · by_cases ho : t.kind = .openParen
    · cases room with
      | zero => exact ⟨_, _, .tooDeep ha ho⟩
      | succ less =>
          have hp := (Reading.Passes.shift ha (by simp [ho])).enter
          obtain ⟨out, r', hc⟩ := deeper less rfl r.shift.enter (hp.isLine hr)
          cases out with
          | error f => exact ⟨_, _, .faultWithin ha ho hc⟩
          | ok e =>
              obtain ⟨us, hu⟩ := hc.exists_passes
              obtain ⟨c, cs, hc'⟩ := Reading.exists_cons_of_isLine (hu.isLine (hp.isLine hr))
              by_cases hk : c.kind = .closeParen
              · exact ⟨_, _, .closed ha ho hc hc' hk⟩
              · obtain ⟨p, hp'⟩ := (hp.trans hu).exists_previous
                exact ⟨_, _, .unclosed ha ho hc hc' hk hp'⟩
    · exact ⟨_, _, .invalid ha hn ho⟩

/-- A signed part has a course if a primary has one. -/
theorem exists_unary {room : Nat}
    (primary : ∀ r, Reading.isLine r.ahead = true →
      ∃ out r', Course room (.part .primary) r out r')
    (r : Reading) (hr : Reading.isLine r.ahead = true) :
    ∃ out r', Course room (.part .unary) r out r' := by
  obtain ⟨t, ts, ha⟩ := Reading.exists_cons_of_isLine hr
  cases hs : t.kind.sign? with
  | none =>
      obtain ⟨out, r', hc⟩ := primary r hr
      exact ⟨_, _, .unsigned ha hs hc⟩
  | some s =>
      have hp := Reading.Passes.shift ha (Kind.ne_eof_of_sign? hs)
      obtain ⟨out, r', hc⟩ := primary r.shift (hp.isLine hr)
      cases out with
      | error f => exact ⟨_, _, .faultUnderSign ha hs hc⟩
      | ok e => exact ⟨_, _, .signed ha hs hc⟩

/-- In a line, every part of the grammar has a course. -/
theorem exists_part (room : Nat) (rank : Rank) (r : Reading)
    (hr : Reading.isLine r.ahead = true) : ∃ out r', Course room (.part rank) r out r' := by
  have hprimary := exists_primary room fun less hroom r hr =>
    exists_part less .addition r hr
  have hunary := exists_unary hprimary
  have hmultiplication := exists_of_operand .multiplication rfl hunary
  have haddition := exists_of_operand .addition rfl hmultiplication
  cases rank with
  | primary => exact hprimary r hr
  | unary => exact hunary r hr
  | multiplication => exact hmultiplication r hr
  | addition => exact haddition r hr
termination_by room

/-- Every reading of a line has a course, whatever room there is. -/
theorem exists_whole (room : Nat) (r : Reading) (hr : Reading.isLine r.ahead = true) :
    ∃ out r', Course room .whole r out r' := by
  obtain ⟨out, r', hc⟩ := exists_part room .addition r hr
  cases out with
  | error f => exact ⟨_, _, .faultWhole hc⟩
  | ok e =>
      obtain ⟨us, hu⟩ := hc.exists_passes
      obtain ⟨t, ts, ha⟩ := Reading.exists_cons_of_isLine (hu.isLine hr)
      by_cases hk : t.kind = .eof
      · exact ⟨_, _, .whole hc ha hk⟩
      · exact ⟨_, _, .leftOver hc ha hk⟩

end Course

/-! ## readings of a list of tokens -/

/-- In a line, the reader does what a course says, and nothing else. -/
theorem Reader.runOn_whole_iff {r r' : Reading} {out : Except Reading.Fault Expr}
    (hr : Reading.isLine r.ahead = true) :
    runOn whole r = (out, r') ↔ Course (r.limit - r.depth) .whole r out r' := by
  constructor
  · intro h
    obtain ⟨out', r'', hc⟩ := Course.exists_whole (r.limit - r.depth) r hr
    obtain ⟨rfl, rfl⟩ := Prod.mk.injEq .. ▸ (hc.run rfl).symm.trans h
    exact hc
  · exact fun h => h.run rfl

/-- Every number among some tokens has a value. -/
def Readable (ts : List Token) : Prop := ∀ t ∈ ts, t.kind = .number → ∃ x, t.value = .ok x

instance (ts : List Token) : Decidable (Readable ts) :=
  decidable_of_iff (∀ t ∈ ts, t.kind = .number → t.value.isOk = true) <| by
    have isOk_iff : ∀ t : Token, t.value.isOk = true ↔ ∃ x, t.value = .ok x := by
      intro t
      cases t.value <;> simp [Except.isOk, Except.toBool]
    simp only [Readable, isOk_iff]

/-- The outcome of reading a line is that of its course. -/
theorem readTokens_eq_iff {limit : Nat} {ts : List Token} {out : Except Reading.Fault Expr}
    (h : Reading.isLine ts = true) :
    readTokens limit ts = out ↔ ∃ r', Course limit .whole (.start limit ts) out r' := by
  have hout : readTokens limit ts = (Reader.runOn Reader.whole (.start limit ts)).1 := by
    rw [readTokens, Reading.outcome, Reading.ofTokens, if_pos h]
  rw [hout]
  constructor
  · rintro rfl
    exact ⟨_, (Reader.runOn_whole_iff (r := .start limit ts) h).mp rfl⟩
  · rintro ⟨r', hc⟩
    rw [(Reader.runOn_whole_iff (r := .start limit ts) h).mpr hc]

/-- Where the numbers of a line have values, it is an expression, or fails to be one by the
grammar. -/
theorem readTokens_cases {ts : List Token} (limit : Nat) (h : Reading.isLine ts = true)
    (hr : Readable ts) :
    (∃ e, readTokens limit ts = .ok e) ∨ ∃ g, readTokens limit ts = .error (.grammar g) := by
  cases hout : readTokens limit ts with
  | ok e => exact .inl ⟨e, rfl⟩
  | error f =>
      obtain ⟨r, hc⟩ := (readTokens_eq_iff h).mp hout
      obtain ⟨g, rfl⟩ | ⟨t, ht, hk, v, hv, -⟩ := hc.fault_cases rfl
      · exact .inr ⟨g, rfl⟩
      · obtain ⟨x, hx⟩ := hr t ht hk
        simp [hx] at hv

end LineCalc
