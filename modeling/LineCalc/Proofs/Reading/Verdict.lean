import LineCalc.Counter
import LineCalc.Proofs.Reading.Acceptance

/-!
# LineCalc.Proofs.Reading.Verdict

The reader and the machine with one counter come to the same verdict.  The
machine is set on the places of a reading (`Counter.verdictAt`): its counter is
the depth of the place.  A course through a part of the grammar takes it from
an operand expected at the first place to an operator expected at the last, or
to the fault that the course ends with (`Course.agrees`).  What the reader knows
from where it is in the grammar, that no operator follows an expression, is a
lemma of its own: `Course.ends`.
-/

namespace LineCalc

variable {limit depth room : Nat} {ts : List Token} {t p : Token} {r r' : Reading}
variable {expecting expecting' : Expecting} {f : GrammarFault}

/-! ## the moves of the machine -/

namespace Counter

/-- A number is an operand. -/
theorem move_number (hk : t.kind = .number) :
    move limit depth p t .signedOperand = .next .operator depth := by
  simp [move, moveOperand, hk]

/-- An opening parenthesis within the limit begins a group. -/
theorem move_open (hk : t.kind = .openParen) (hd : depth < limit) :
    move limit depth p t .signedOperand = .next .operand (depth + 1) := by
  simp [move, moveOperand, hk, hd]

/-- An opening parenthesis at the limit is too deep. -/
theorem move_tooDeep (hk : t.kind = .openParen) (hd : ¬ depth < limit) :
    move limit depth p t .signedOperand = .reject (.tooDeep t) := by
  simp [move, moveOperand, hk, hd]

/-- Anything else is no operand. -/
theorem move_invalid (hn : t.kind ≠ .number) (ho : t.kind ≠ .openParen) :
    move limit depth p t .signedOperand = .reject (.invalid t) := by
  cases hk : t.kind <;> simp_all [move, moveOperand]

/-- Where no sign comes, it makes no difference whether one may come. -/
theorem move_unsigned (hs : t.kind.sign? = none) :
    move limit depth p t .operand = move limit depth p t .signedOperand := by
  cases hk : t.kind <;> simp_all [move, moveOperand, Kind.sign?]

/-- A sign stands before an operand that has none. -/
theorem move_sign {s : Sign} (hs : t.kind.sign? = some s) :
    move limit depth p t .operand = .next .signedOperand depth := by
  cases hk : t.kind <;> simp_all [move, moveOperand, Kind.sign?]

/-- An operator stands before a further operand. -/
theorem move_operator {o : Operator} (ho : t.kind.operator? = some o) :
    move limit depth p t .operator = .next .operand depth := by
  cases hk : t.kind <;>
    simp_all [move, moveOperator, Kind.operator?, Kind.additive?, Kind.multiplicative?]

/-- A closing parenthesis ends the innermost group. -/
theorem move_close (hk : t.kind = .closeParen) :
    move limit (depth + 1) p t .operator = .next .operator depth := by
  simp [move, moveOperator, hk]

/-- Outside of every group the line can end. -/
theorem move_end (hk : t.kind = .eof) : move limit 0 p t .operator = .accept := by
  simp [move, moveOperator, hk]

/-- In a group anything else leaves it unclosed. -/
theorem move_unclosed (hk : t.kind ≠ .closeParen) (ho : t.kind.operator? = none) :
    move limit (depth + 1) p t .operator = .reject (.unclosed p t) := by
  cases h : t.kind <;> simp_all [move, moveOperator]

/-- Outside of every group anything else is left over. -/
theorem move_leftOver (hk : t.kind ≠ .eof) (ho : t.kind.operator? = none) :
    move limit 0 p t .operator = .reject (.leftOver t) := by
  cases h : t.kind <;> simp_all [move, moveOperator]

/-- What a token can do to the machine. -/
inductive Effect (limit depth : Nat) (t : Token) : Expecting → Move → Prop where
  | number {expecting : Expecting} : expecting ≠ .operator → t.kind = .number →
      Effect limit depth t expecting (.next .operator depth)
  | sign {s : Sign} : t.kind.sign? = some s →
      Effect limit depth t .operand (.next .signedOperand depth)
  | opening {expecting : Expecting} : expecting ≠ .operator → t.kind = .openParen →
      depth < limit → Effect limit depth t expecting (.next .operand (depth + 1))
  | operator {o : Operator} : t.kind.operator? = some o →
      Effect limit depth t .operator (.next .operand depth)
  | closing {less : Nat} : t.kind = .closeParen → depth = less + 1 →
      Effect limit depth t .operator (.next .operator less)
  | finish : t.kind = .eof → depth = 0 → Effect limit depth t .operator .accept
  | fault {expecting : Expecting} {f : GrammarFault} : f.token = t →
      Effect limit depth t expecting (.reject f)

/-- What a token does behind a sign it also does without one. -/
theorem Effect.unsigned {m : Move} (h : Effect limit depth t .signedOperand m) :
    Effect limit depth t .operand m := by
  cases h with
  | number _ hk => exact .number nofun hk
  | opening _ hk hd => exact .opening nofun hk hd
  | fault hf => exact .fault hf

/-- What a token does behind a sign. -/
theorem effect_signedOperand (limit depth : Nat) (p t : Token) :
    Effect limit depth t .signedOperand (move limit depth p t .signedOperand) := by
  by_cases hn : t.kind = .number
  · exact move_number hn ▸ .number nofun hn
  · by_cases ho : t.kind = .openParen
    · by_cases hd : depth < limit
      · exact move_open ho hd ▸ .opening nofun ho hd
      · exact move_tooDeep ho hd ▸ .fault rfl
    · exact move_invalid hn ho ▸ .fault rfl

/-- What a token does behind an operand. -/
theorem effect_operator (limit depth : Nat) (p t : Token) :
    Effect limit depth t .operator (move limit depth p t .operator) := by
  cases ho : t.kind.operator? with
  | some o => exact move_operator ho ▸ .operator ho
  | none =>
      cases depth with
      | zero =>
          by_cases hk : t.kind = .eof
          · exact move_end hk ▸ .finish hk rfl
          · exact move_leftOver hk ho ▸ .fault rfl
      | succ depth =>
          by_cases hk : t.kind = .closeParen
          · exact move_close hk ▸ .closing hk rfl
          · exact move_unclosed hk ho ▸ .fault rfl

/-- Every move of the machine is one of the effects. -/
theorem effect_move (limit depth : Nat) (p t : Token) (expecting : Expecting) :
    Effect limit depth t expecting (move limit depth p t expecting) := by
  cases expecting with
  | operand =>
      cases hs : t.kind.sign? with
      | some s => exact move_sign hs ▸ .sign hs
      | none => exact move_unsigned hs ▸ (effect_signedOperand limit depth p t).unsigned
  | signedOperand => exact effect_signedOperand limit depth p t
  | operator => exact effect_operator limit depth p t

/-- A fault is at the token that the machine looks at. -/
theorem token_of_move (h : move limit depth p t expecting = .reject f) : f.token = t := by
  have he := effect_move limit depth p t expecting
  rw [h] at he
  cases he with
  | fault hf => exact hf

/-- A move that goes on counts a parenthesis that opens or closes, and does not pass the end of the
line. -/
theorem depth_of_move {depth' : Nat}
    (h : move limit depth p t expecting = .next expecting' depth') :
    t.kind ≠ .eof ∧ depth' + (if t.kind = .closeParen then 1 else 0) =
      depth + if t.kind = .openParen then 1 else 0 := by
  have he := effect_move limit depth p t expecting
  rw [h] at he
  cases he with
  | number _ hk | opening _ hk _ => simp [hk]
  | closing hk hd => simp [hk, hd]
  | sign hs => simp [Kind.ne_eof_of_sign? hs, Kind.not_paren_of_sign? hs]
  | operator ho => simp [Kind.ne_eof_of_operator? ho, Kind.not_paren_of_operator? ho]

/-! ## the machine at a place of a reading -/

/-- The verdict on the tokens ahead of a place, with its open parentheses counted. -/
def verdictAt (expecting : Expecting) (r : Reading) : Except GrammarFault Unit :=
  verdict r.limit expecting r.depth (r.consumed.headD .endOfLine) r.ahead

/-- Where the machine moves on with the reader the verdict stays the same. -/
theorem verdictAt_next (hp : r.Passes [t] r')
    (hm : move r.limit r.depth (r.consumed.headD .endOfLine) t expecting =
      .next expecting' r'.depth) :
    verdictAt expecting r = verdictAt expecting' r' := by
  have ha : r.ahead = t :: r'.ahead := hp.ahead
  have hc : r'.consumed = t :: r.consumed := hp.consumed
  rw [verdictAt, verdictAt, ha, hc, hp.limit, verdict, hm]
  rfl

/-- Where the machine rejects a token its fault is the verdict. -/
theorem verdictAt_reject (ha : r.ahead = t :: ts)
    (hm : move r.limit r.depth (r.consumed.headD .endOfLine) t expecting = .reject f) :
    verdictAt expecting r = .error f := by
  rw [verdictAt, ha, verdict, hm]

theorem verdictAt_open (ha : r.ahead = t :: ts) (hk : t.kind = .openParen)
    (hd : r.depth < r.limit) : verdictAt .signedOperand r = verdictAt .operand r.shift.enter :=
  verdictAt_next (Reading.Passes.shift ha (by simp [hk])).enter (move_open hk hd)

theorem verdictAt_close (ha : r.ahead = t :: ts) (hk : t.kind = .closeParen) (hd : 0 < r.depth) :
    verdictAt .operator r = verdictAt .operator r.shift.leave := by
  refine verdictAt_next (Reading.Passes.shift ha (by simp [hk])).leave ?_
  rw [show r.depth = r.shift.leave.depth + 1 by simp; omega]
  exact move_close hk

theorem verdictAt_unsigned (ha : r.ahead = t :: ts) (hs : t.kind.sign? = none) :
    verdictAt .operand r = verdictAt .signedOperand r := by
  rw [verdictAt, verdictAt, ha, verdict, verdict, move_unsigned hs]

theorem verdictAt_sign {s : Sign} (ha : r.ahead = t :: ts) (hs : t.kind.sign? = some s) :
    verdictAt .operand r = verdictAt .signedOperand r.shift :=
  verdictAt_next (.shift ha (Kind.ne_eof_of_sign? hs)) (move_sign hs)

theorem verdictAt_operator {o : Operator} (ha : r.ahead = t :: ts)
    (ho : t.kind.operator? = some o) : verdictAt .operator r = verdictAt .operand r.shift :=
  verdictAt_next (.shift ha (Kind.ne_eof_of_operator? ho)) (move_operator ho)

theorem verdictAt_end (ha : r.ahead = t :: ts) (hk : t.kind = .eof) (hd : r.depth = 0) :
    verdictAt .operator r = .ok () := by
  rw [verdictAt, ha, verdict, hd, move_end hk]

end Counter

/-! ## where a part of the grammar ends -/

/-- A token of the kind cannot go on with what is of the rank. -/
def Rank.Ends : Rank → Kind → Prop
  | .multiplication, k => k.multiplicative? = none
  | .addition, k => k.multiplicative? = none ∧ k.additive? = none
  | _, _ => True

/-- What ends the operands of a rank and is no operator of it ends the rank. -/
theorem Rank.ends_of_operand {rank inner : Rank} {k : Kind} (hi : rank.operand? = some inner)
    (h : inner.Ends k) (ho : rank.operator? k = none) : rank.Ends k := by
  cases rank with
  | multiplication => exact ho
  | addition => cases hi; exact ⟨h, ho⟩
  | _ => cases hi

/-- No operator of the rank comes next at the place. -/
def Rank.EndsAt (rank : Rank) (r : Reading) : Prop := ∀ t ts, r.ahead = t :: ts → rank.Ends t.kind

/-- What was read is followed by nothing that would go on with it. -/
def Goal.EndsAt (r r' : Reading) : Goal → Prop
  | .whole => True
  | .part rank => rank.EndsAt r'
  | .after rank _ => ∀ inner, rank.operand? = some inner → inner.EndsAt r → rank.EndsAt r'

namespace Course

variable {goal : Goal} {out : Except Reading.Fault Expr} {e : Expr}

/-- A part of the grammar is read to its end. -/
theorem ends (h : Course room goal r out r') (he : out = .ok e) : goal.EndsAt r r' := by
  induction h generalizing e with
  | number _ _ _ | closed _ _ _ _ _ _ | unsigned _ _ _ _ | signed _ _ _ _ =>
      exact fun _ _ _ => trivial
  | first hi _ _ ih ih' => exact ih' he _ hi (ih rfl)
  | last ha ho =>
      intro inner hi hends t ts ha'
      cases ha.symm.trans ha'
      exact Rank.ends_of_operand hi (hends _ _ ha) ho
  | next _ _ hi _ _ ih ih' =>
      intro inner hi' _
      cases hi.symm.trans hi'
      exact ih' he _ hi (ih rfl)
  | whole _ _ _ _ => trivial
  | _ => cases he

/-- Every parenthesis that an expression opens is closed in it. -/
theorem depth_eq (h : Course room goal r out r') (he : out = .ok e) : r'.depth = r.depth := by
  induction h generalizing e with
  | number _ _ _ | last _ _ => rfl
  | closed _ _ _ _ _ ih => simp [ih he]
  | unsigned _ _ _ ih | whole _ _ _ ih => exact ih he
  | signed _ _ _ ih => exact ih rfl
  | first _ _ _ ih ih' | next _ _ _ _ _ ih ih' => exact (ih' he).trans (ih rfl)
  | _ => cases he

/-- To enter a pair of parentheses takes room. -/
theorem room_enter (hroom : room + 1 + r.depth = r.limit) :
    room + r.shift.enter.depth = r.shift.enter.limit := by
  simp only [Reading.depth_enter, Reading.depth_shift, Reading.limit_enter, Reading.limit_shift]
  omega

/-- The room under the limit after an expression is the room before it. -/
theorem room_eq (h : Course room goal r (.ok e) r') (hroom : room + r.depth = r.limit) :
    room + r'.depth = r'.limit := by
  obtain ⟨us, hp⟩ := h.exists_passes
  rw [h.depth_eq rfl, hp.limit, hroom]

end Course

/-! ## one verdict -/

namespace Counter

variable {out : Except Reading.Fault Expr} {rest rest' : Except GrammarFault Unit} {e : Expr}

/-- Set on a place, the machine comes to the verdict `rest` where the reader has an expression, and
to the fault of the grammar that the reader has otherwise. -/
structure Judges (expecting : Expecting) (r : Reading) (out : Except Reading.Fault Expr)
    (rest : Except GrammarFault Unit) : Prop where
  passes : ∀ e, out = .ok e → verdictAt expecting r = rest
  rejects : ∀ f, out = .error (.grammar f) → verdictAt expecting r = .error f

namespace Judges

theorem ok (h : verdictAt expecting r = rest) : Judges expecting r (.ok e) rest where
  passes _ _ := h
  rejects := nofun

theorem error (h : verdictAt expecting r = .error f) :
    Judges expecting r (.error (.grammar f)) rest where
  passes := nofun
  rejects _ hf := by cases hf; exact h

/-- After a fault there is no rest. -/
theorem fault {f : Reading.Fault} (h : Judges expecting r (.error f) rest) :
    Judges expecting r (.error f) rest' where
  passes := nofun
  rejects := h.rejects

theorem of_eq (h : verdictAt expecting r = verdictAt expecting' r')
    (hj : Judges expecting' r' out rest) : Judges expecting r out rest where
  passes e he := h.trans (hj.passes e he)
  rejects f hf := h.trans (hj.rejects f hf)

end Judges

end Counter

/-- What the machine expects where the reader is set on a goal.  A primary may follow a sign, and
begins with none. -/
def Goal.expects : Goal → Expecting
  | .part .primary => .signedOperand
  | .after .. => .operator
  | _ => .operand

/-- The machine agrees with what the reader does between two places; a whole line is judged where no
parenthesis is open. -/
def Goal.Agrees (r : Reading) (out : Except Reading.Fault Expr) (r' : Reading) : Goal → Prop
  | .whole => r.depth = 0 → Counter.Judges .operand r out (.ok ())
  | goal => Counter.Judges goal.expects r out (Counter.verdictAt .operator r')

/-- Every rank with operands, and every such operand, begins where an operand is expected that may
have a sign. -/
theorem Goal.agrees_of_operand {rank inner : Rank} {out : Except Reading.Fault Expr}
    (hi : rank.operand? = some inner) :
    ((Goal.part rank).Agrees r out r' ↔
      Counter.Judges .operand r out (Counter.verdictAt .operator r')) ∧
    ((Goal.part inner).Agrees r out r' ↔
      Counter.Judges .operand r out (Counter.verdictAt .operator r')) := by
  cases rank with
  | multiplication | addition => cases hi; exact ⟨Iff.rfl, Iff.rfl⟩
  | _ => cases hi

namespace Course

open Counter

variable {goal : Goal} {out : Except Reading.Fault Expr} {e : Expr}

/-- Where an expression ends, what comes next is no operator. -/
theorem operator?_eq_none {c : Token} {cs : List Token}
    (h : Course room (.part .addition) r (.ok e) r') (hc : r'.ahead = c :: cs) :
    c.kind.operator? = none := by
  obtain ⟨hm, ha⟩ := h.ends rfl c cs hc
  simp [Kind.operator?, hm, ha]

/-- An expression between parentheses is not followed by what closes them: the machine names the
last token of it, as the reader does. -/
theorem verdictAt_unclosed {c : Token} {ts cs : List Token} (ha : r.ahead = t :: ts)
    (h : Course room (.part .addition) r.shift.enter (.ok e) r') (hc : r'.ahead = c :: cs)
    (hk : c.kind ≠ .closeParen) (hp : r'.previous? = some p) :
    verdictAt .operator r' = .error (.unclosed p c) := by
  have hd : r'.depth = r.depth + 1 := h.depth_eq rfl
  have hlast : r'.consumed.headD .endOfLine = p := by
    obtain ⟨us, hu⟩ := h.exists_passes
    have hcons : r.shift.enter.consumed = t :: r.consumed := Reading.consumed_shift ha
    rw [Reading.previous?, hu.consumed, hcons] at hp
    rw [hu.consumed, hcons]
    cases hus : us.reverse ++ t :: r.consumed with
    | nil => simp at hus
    | cons q qs =>
        rw [hus] at hp
        exact Option.some.inj hp
  refine verdictAt_reject hc ?_
  rw [hlast, hd]
  exact move_unclosed hk (h.operator?_eq_none hc)

/-- Wherever a part of the grammar is read, the machine agrees with the reader. -/
theorem agrees (h : Course room goal r out r') (hroom : room + r.depth = r.limit) :
    goal.Agrees r out r' := by
  induction h with
  | number ha hk _ => exact .ok (verdictAt_next (.shift ha (by simp [hk])) (move_number hk))
  | unreadable _ _ _ => exact ⟨nofun, nofun⟩
  | invalid ha hn ho => exact .error (verdictAt_reject ha (move_invalid hn ho))
  | tooDeep ha hk => exact .error (verdictAt_reject ha (move_tooDeep hk (by omega)))
  | faultWithin ha hk _ ih =>
      exact (ih (room_enter hroom)).fault.of_eq (verdictAt_open ha hk (by omega))
  | unclosed ha hk hc hc' hck hp ih =>
      have hin := (ih (room_enter hroom)).passes _ rfl
      exact .error ((verdictAt_open ha hk (by omega)).trans
        (hin.trans (hc.verdictAt_unclosed ha hc' hck hp)))
  | closed ha hk hc hc' hck ih =>
      have hin := (ih (room_enter hroom)).passes _ rfl
      have hd := hc.depth_eq rfl
      exact .ok ((verdictAt_open ha hk (by omega)).trans
        (hin.trans (verdictAt_close hc' hck (by simp [hd]))))
  | unsigned ha hs _ ih => exact (ih hroom).of_eq (verdictAt_unsigned ha hs)
  | faultUnderSign ha hs _ ih => exact (ih hroom).fault.of_eq (verdictAt_sign ha hs)
  | signed ha hs _ ih => exact .ok ((verdictAt_sign ha hs).trans ((ih hroom).passes _ rfl))
  | faultFirst hi _ ih =>
      have hfirst := (Goal.agrees_of_operand hi).2.mp (ih hroom)
      exact (Goal.agrees_of_operand hi).1.mpr hfirst.fault
  | first hi hc _ ih ih' =>
      have hfirst := (Goal.agrees_of_operand hi).2.mp (ih hroom)
      have hafter := ih' (hc.room_eq hroom)
      exact (Goal.agrees_of_operand hi).1.mpr (hafter.of_eq (hfirst.passes _ rfl))
  | last _ _ => exact .ok rfl
  | faultNext ha ho hi _ ih =>
      have hnext := (Goal.agrees_of_operand hi).2.mp (ih hroom)
      exact hnext.fault.of_eq (verdictAt_operator ha (Rank.operator?_of_rank ho))
  | next ha ho hi hc _ ih ih' =>
      have hnext := (Goal.agrees_of_operand hi).2.mp (ih hroom)
      have hafter := ih' (hc.room_eq hroom)
      exact hafter.of_eq ((verdictAt_operator ha (Rank.operator?_of_rank ho)).trans
        (hnext.passes _ rfl))
  | faultWhole _ ih => exact fun _ => (ih hroom).fault
  | leftOver hc ha hk ih =>
      intro hd
      refine .error (((ih hroom).passes _ rfl).trans (verdictAt_reject ha ?_))
      rw [hc.depth_eq rfl, hd]
      exact move_leftOver hk (hc.operator?_eq_none ha)
  | whole hc ha hk ih =>
      intro hd
      exact .ok (((ih hroom).passes _ rfl).trans (verdictAt_end ha hk (hc.depth_eq rfl ▸ hd)))

end Course

/-! ## lines -/

/-- Whatever the reader ends with, the tokens are a line, unless it says they are not. -/
theorem isLine_of_readTokens {out : Except Reading.Fault Expr} (h : readTokens limit ts = out)
    (ho : out ≠ .error .unterminated) : Reading.isLine ts = true := by
  cases hl : Reading.isLine ts with
  | true => rfl
  | false =>
      rw [readTokens, Reading.outcome, Reading.ofTokens, hl] at h
      exact absurd h.symm ho

/-- Of a line the machine and the reader have one opinion. -/
theorem judges_readTokens (limit : Nat) (hl : Reading.isLine ts = true) :
    Counter.Judges .operand (.start limit ts) (readTokens limit ts) (.ok ()) := by
  obtain ⟨r', hc⟩ := (readTokens_eq_iff hl).mp rfl
  exact hc.agrees rfl rfl

/-- The machine accepts what the reader reads. -/
theorem check_of_readTokens {e : Expr} (h : readTokens limit ts = .ok e) :
    Counter.check limit ts = .ok () := by
  have hl := isLine_of_readTokens h nofun
  exact (judges_readTokens limit hl).passes e h

/-- The machine finds the fault that the reader reports. -/
theorem check_of_readTokens_error (h : readTokens limit ts = .error (.grammar f)) :
    Counter.check limit ts = .error f := by
  have hl := isLine_of_readTokens h nofun
  exact (judges_readTokens limit hl).rejects f h

/-- The reader reads exactly the lines that the machine accepts. -/
theorem readTokens_ok_iff_check (hl : Reading.isLine ts = true) (hr : Readable ts) :
    (∃ e, readTokens limit ts = .ok e) ↔ Counter.check limit ts = .ok () := by
  constructor
  · rintro ⟨e, he⟩
    exact check_of_readTokens he
  · intro h
    obtain he | ⟨g, hg⟩ := readTokens_cases limit hl hr
    · exact he
    · simp [check_of_readTokens_error hg] at h

/-- The reader reports exactly the faults that the machine finds. -/
theorem readTokens_error_iff_check (hl : Reading.isLine ts = true) (hr : Readable ts) :
    readTokens limit ts = .error (.grammar f) ↔ Counter.check limit ts = .error f := by
  constructor
  · exact check_of_readTokens_error
  · intro h
    obtain ⟨e, he⟩ | ⟨g, hg⟩ := readTokens_cases limit hl hr
    · simp [check_of_readTokens he] at h
    · rw [check_of_readTokens_error hg] at h
      cases h
      exact hg

/-! ## limits -/

namespace Counter

/-- Only a parenthesis that opens asks for the limit. -/
theorem move_wider {wider : Nat} (hle : limit ≤ wider) (ho : t.kind = .openParen → depth < limit) :
    move limit depth p t expecting = move wider depth p t expecting := by
  cases expecting with
  | operand | signedOperand => grind [move, moveOperand]
  | operator => rfl

/-- Tokens before the end of the line that are nested no deeper than the limit are judged alike
under a wider one. -/
theorem verdict_wider {wider : Nat} (hle : limit ≤ wider)
    (hn : ∀ front, front <+: beforeEnd ts → depth + opened front ≤ closed front + limit) :
    verdict limit expecting depth p ts = verdict wider expecting depth p ts := by
  induction ts generalizing expecting depth p with
  | nil =>
      rw [verdict, verdict, move_wider hle (by simp [Token.endOfLine])]
  | cons t ts ih =>
      have hfront : t.kind ≠ .eof → ∀ front, front <+: beforeEnd ts →
          depth + opened (t :: front) ≤ closed (t :: front) + limit := by
        intro hk front hf
        refine hn _ ?_
        rw [beforeEnd, List.takeWhile_cons_of_pos (by simpa using hk)]
        exact List.cons_prefix_cons.mpr ⟨rfl, hf⟩
      have hmove : move limit depth p t expecting = move wider depth p t expecting := by
        refine move_wider hle fun ho => ?_
        have := hfront (by simp [ho]) [] List.nil_prefix
        exact Nat.lt_of_succ_le (by simpa [opened, closed, ho] using this)
      rw [verdict, verdict, hmove]
      split
      · rfl
      · rfl
      · next expecting' depth' hm =>
        obtain ⟨hk, hd⟩ := depth_of_move hm
        refine ih fun front hf => ?_
        have := hfront hk front hf
        rw [opened_cons, closed_cons] at this
        omega

end Counter

/-- Where the tokens before the end of a line are nested no deeper than is ever read, or no more
parentheses are allowed than that, the machine may go by the depth that is set. -/
theorem check_limit {s : Settings} (hs : Settings.depthOf? s.maxDepth = some depth)
    (hn : depth ≤ Settings.deepest ∨ NestsWithin Settings.deepest (beforeEnd ts)) :
    Counter.check s.limit ts = Counter.check depth ts := by
  rw [Settings.limit_eq hs]
  obtain hle | hle := Nat.le_total depth Settings.deepest
  · rw [Nat.min_eq_left hle]
  · rw [Nat.min_eq_right hle]
    obtain hle' | hn := hn
    · rw [Nat.le_antisymm hle hle']
    · exact Counter.verdict_wider hle fun front hf => by simpa using hn front hf

/-- A parenthesis in another one, with a number in it where it should be closed. -/
def openLine : List Token :=
  [⟨.openParen, ['(']⟩, ⟨.number, ['1']⟩, ⟨.plus, ['+']⟩, ⟨.minus, ['-']⟩, ⟨.openParen, ['(']⟩,
   ⟨.number, ['2']⟩, ⟨.number, ['3']⟩, .endOfLine]

end LineCalc
