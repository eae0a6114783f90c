import LineCalc.Proofs.Reading.Account

/-!
# LineCalc.Proofs.Reading.Operations

The operations on a reading, in any order and after any failures.  An
operation that reads a part of the grammar goes as a course does from wherever
it begins (`Reading.exists_course`); the others look at a token or take one.
Every operation is a passage, so a reading stays in its line and before the
end of it (`Reading.Reached.inLine`).  At every place that operations lead to,

* an operation takes balanced tokens or fails with its levels counted, and
  stops where the token of its fault is: `Reading.perform_account`;
* no token is missing, no level is closed that is not open, and nothing fails
  but the grammar and the numbers: `Reading.perform_safe`.
-/

namespace LineCalc

/-- The value of a number is missing only where its lexeme is no numeral. -/
theorem Token.numeral?_of_value {t : Token} {f : ValueFault} (hk : t.kind = .number)
    (h : t.value = .error f) : Decimal.numeral? t.lexeme = none ∧ f = .notNumeral t.lexeme := by
  rw [Token.value, if_pos hk] at h
  split at h
  · cases h
  · next hn => exact ⟨hn, (Except.error.inj h).symm⟩

namespace Reader

variable {r r' : Reading}

/-- What is done with the answer of an action makes no difference to the place. -/
theorem runOn_map {α β : Type} (f : α → β) {m : Reader α} {answer : Except Reading.Fault α}
    (h : runOn m r = (answer, r')) : runOn (f <$> m) r = (answer.map f, r') := by
  rw [← bind_pure_comp, runOn_bind, h]
  cases answer <;> rfl

/-- At the end of the line an advance stays there. -/
theorem runOn_advance_end {t : Token} {ts : List Token} (h : r.ahead = t :: ts)
    (hk : t.kind = .eof) : runOn advance r = (.ok t, r) := by
  rw [advance, runOn_bind_ok (runOn_peek h)]
  simp [hk]

end Reader

variable {limit : Nat} {goal : Goal} {r r' : Reading} {t : Token} {ts us : List Token}
variable {out : Except Reading.Fault Expr}

namespace Reading

variable {op : Op}

/-! ## where a reading is in a list of tokens -/

/-- The tokens from a place up to another one. -/
def between (r r' : Reading) : List Token := (r.tokens.take r'.place).drop r.place

/-- Behind the place are the tokens ahead. -/
theorem drop_place (r : Reading) : r.tokens.drop r.place = r.ahead :=
  List.drop_left' (by simp [place])

/-- In front of the place are the tokens consumed. -/
theorem take_place (r : Reading) : r.tokens.take r.place = r.consumed.reverse :=
  List.take_left' (by simp [place])

/-- The token at a place is the one that comes next. -/
theorem getElem?_place (h : r.ahead = t :: us) : r.tokens[r.place]? = some t := by
  rw [← List.head?_drop, drop_place, h]
  rfl

/-- The token before a place is the last one taken. -/
theorem getElem?_pred_place (h : r.consumed = t :: us) :
    0 < r.place ∧ r.tokens[r.place - 1]? = some t := by
  have hplace : r.place = us.length + 1 := by simp [place, h]
  refine ⟨by omega, ?_⟩
  rw [hplace, tokens, h, List.reverse_cons, List.append_assoc]
  simp

namespace Passes

theorem tokens_eq (h : r.Passes us r') : r'.tokens = r.tokens := by
  simp [tokens, h.ahead, h.consumed]

theorem place_eq (h : r.Passes us r') : r'.place = r.place + us.length := by
  simp [place, h.consumed, Nat.add_comm]

/-- The tokens between the ends of a passage are those passed. -/
theorem between_eq (h : r.Passes us r') : r.between r' = us := by
  rw [between, h.place_eq, ← List.take_drop, drop_place, h.ahead]
  exact List.take_left

end Passes

/-- A place in a line at which the end of the line has not been taken. -/
structure InLine (ts : List Token) (r : Reading) : Prop where
  tokens_eq : r.tokens = ts
  isLine : Reading.isLine r.ahead = true
  before_end : ∀ t ∈ r.consumed, t.kind ≠ .eof

namespace InLine

theorem start (h : Reading.isLine ts = true) : InLine ts (.start limit ts) :=
  ⟨rfl, h, by simp [Reading.start]⟩

/-- A passage stays in the line. -/
theorem passes (h : r.InLine ts) (hp : r.Passes us r') : r'.InLine ts where
  tokens_eq := hp.tokens_eq.trans h.tokens_eq
  isLine := hp.isLine h.isLine
  before_end := by
    intro t ht
    rw [hp.consumed, List.mem_append, List.mem_reverse] at ht
    exact ht.elim (hp.before_end t) (h.before_end t)

/-- There is always a token ahead. -/
theorem place_lt (h : r.InLine ts) : r.place < ts.length := by
  obtain ⟨t, us, ha⟩ := exists_cons_of_isLine h.isLine
  rw [← h.tokens_eq, tokens, ha, List.length_append, List.length_reverse, List.length_cons]
  simp only [place]
  omega

/-- No end token has been consumed. -/
theorem before_place (h : r.InLine ts) : ∀ t ∈ ts.take r.place, t.kind ≠ .eof := by
  rw [← h.tokens_eq, take_place]
  simpa using h.before_end

end InLine

/-! ## what an operation does -/

/-- What an operation reads, if it reads a part of the grammar. -/
def Op.goal? : Op → Option Goal
  | whole => some .whole
  | expression | addition => some (.part .addition)
  | multiplication => some (.part .multiplication)
  | unary => some (.part .unary)
  | primary => some (.part .primary)
  | peek | advance | previous => none

/-- No operation begins in the middle of a rank. -/
theorem Op.goal?_ne_after (hop : op.goal? = some goal) (rank : Rank) (left : Expr) :
    goal ≠ .after rank left := by
  rintro rfl
  cases op <;> simp [goal?] at hop

/-- An operation of the grammar answers as its course does. -/
theorem perform_of_course (hop : op.goal? = some goal)
    (h : Course (r.limit - r.depth) goal r out r') : r.perform op = (out.map .expr, r') := by
  cases op with
  | whole => cases hop; exact Reader.runOn_map _ (h.run rfl)
  | expression | addition | multiplication | unary | primary =>
      cases hop
      exact Reader.runOn_map _ ((Reader.runOn_here _ _).trans h.run)
  | peek | advance | previous => cases hop

theorem error_of_map {f : Fault} (h : out.map Answer.expr = .error f) : out = .error f := by
  cases out with
  | ok e => cases h
  | error f => cases h; rfl

/-- An operation that reads a part of the grammar goes as a course does. -/
theorem exists_course (hop : op.goal? = some goal) (hr : isLine r.ahead = true) :
    ∃ out r', Course (r.limit - r.depth) goal r out r' ∧ r.perform op = (out.map .expr, r') := by
  obtain ⟨out, r', hc⟩ : ∃ out r', Course (r.limit - r.depth) goal r out r' := by
    cases goal with
    | whole => exact Course.exists_whole _ r hr
    | part rank => exact Course.exists_part _ rank r hr
    | after rank left => exact absurd rfl (Op.goal?_ne_after hop rank left)
  exact ⟨out, r', hc, perform_of_course hop hc⟩

/-- Any other operation answers a token, and takes one at most. -/
theorem exists_token (hop : op.goal? = none) (hr : isLine r.ahead = true) :
    ∃ t r' us, r.perform op = (.ok (.token t), r') ∧ r.Passes us r' ∧ r'.depth = r.depth := by
  obtain ⟨t, ts, ha⟩ := exists_cons_of_isLine hr
  cases op with
  | peek => exact ⟨t, r, [], Reader.runOn_map _ (Reader.runOn_peek ha), .refl r, rfl⟩
  | advance =>
      by_cases hk : t.kind = .eof
      · exact ⟨t, r, [], Reader.runOn_map _ (Reader.runOn_advance_end ha hk), .refl r, rfl⟩
      · exact ⟨t, r.shift, [t], Reader.runOn_map _ (Reader.runOn_advance ha hk), .shift ha hk, rfl⟩
  | previous =>
      obtain ⟨p, hp⟩ : ∃ p, r.previous? = some p := by
        cases hc : r.consumed with
        | nil => exact ⟨_, by rw [previous?, hc, ha, List.getLast?_cons]; rfl⟩
        | cons p _ => exact ⟨p, by rw [previous?, hc]; rfl⟩
      exact ⟨p, r, [], Reader.runOn_map _ (Reader.runOn_previous hp), .refl r, rfl⟩
  | whole | expression | addition | multiplication | unary | primary => cases hop

/-- Every operation is a passage. -/
theorem exists_passes_perform (op : Op) (hr : isLine r.ahead = true) :
    ∃ us, r.Passes us (r.perform op).2 := by
  cases hop : op.goal? with
  | some goal =>
      obtain ⟨out, r', hc, hp⟩ := exists_course hop hr
      rw [hp]
      exact hc.exists_passes
  | none =>
      obtain ⟨t, r', us, hp, hpass, -⟩ := exists_token hop hr
      rw [hp]
      exact ⟨us, hpass⟩

/-! ## after any operations -/

/-- A place that operations lead to from the start of a list of tokens, whatever they answer. -/
inductive Reached (limit : Nat) (ts : List Token) : Reading → Prop where
  | start {r : Reading} : ofTokens limit ts = .ok r → Reached limit ts r
  | perform {r : Reading} (op : Op) : Reached limit ts r → Reached limit ts (r.perform op).2

/-- No operations lead out of the line. -/
theorem Reached.inLine (h : Reached limit ts r) : r.InLine ts := by
  induction h with
  | start h =>
      rw [ofTokens] at h
      split at h
      · next hl => cases h; exact .start hl
      · cases h
  | perform op _ ih =>
      obtain ⟨us, hp⟩ := exists_passes_perform op ih.isLine
      exact ih.passes hp

/-- At every place that operations lead to, a part of the grammar that is read as an expression
takes a token or more, with the parentheses in pairs, and leaves as many levels open as there were.
One that is not leaves those open as well that its tokens have opened and not closed.  If the
grammar is at fault, the token of the fault is the next one, or, if it is a parenthesis too many,
the one just taken. -/
theorem perform_account (h : Reached limit ts r) (hop : op.goal? = some goal) :
    ∃ answer r', r.perform op = (answer, r') ∧
      (∀ a, answer = .ok a →
        r.place < r'.place ∧ r'.depth = r.depth ∧ Balanced (r.between r')) ∧
      (∀ f, answer = .error f →
        (r'.depth : Int) - r.depth = opened (r.between r') - closed (r.between r')) ∧
      (∀ t, answer = .error (.grammar (.tooDeep t)) →
        0 < r'.place ∧ ts[r'.place - 1]? = some t) ∧
      ∀ f, answer = .error (.grammar f) → (∀ t, f ≠ .tooDeep t) →
        ts[r'.place]? = some f.token := by
  obtain ⟨out, r', hc, hp⟩ := exists_course hop h.inLine.isLine
  have htokens : r'.tokens = ts := by
    obtain ⟨us, hpass⟩ := hc.exists_passes
    exact hpass.tokens_eq.trans h.inLine.tokens_eq
  refine ⟨_, r', hp, ?_, ?_, ?_, ?_⟩
  · intro a ha
    obtain ⟨e, rfl⟩ : ∃ e, out = .ok e := by
      cases out with
      | ok e => exact ⟨e, rfl⟩
      | error f => cases ha
    obtain ⟨us, hu, hne, hb⟩ := hc.exists_balanced (Op.goal?_ne_after hop)
    have hlength := List.length_pos_iff.mpr hne
    rw [hu.between_eq, hu.place_eq]
    exact ⟨by omega, hc.depth_eq rfl, hb⟩
  · intro f _
    obtain ⟨us, hu⟩ := hc.exists_counts
    have hcount := hu.depth
    rw [hu.between_eq]
    omega
  · intro t ht
    cases hc.stopped (error_of_map ht) with
    | next hf _ => exact absurd rfl (hf t)
    | tooDeep htaken => exact htokens ▸ getElem?_pred_place htaken
  · intro f hf hdeep
    cases hc.stopped (error_of_map hf) with
    | next _ ha => exact htokens ▸ getElem?_place ha
    | tooDeep _ => exact absurd rfl (hdeep _)

/-- A parenthesis too many under a limit of one, and in it a sign before what is no operand. -/
def deepLine : List Token :=
  [⟨.openParen, ['(']⟩, ⟨.openParen, ['(']⟩, ⟨.minus, ['-']⟩, ⟨.closeParen, [')']⟩, .endOfLine]

/-- Past a group too deep a signed part still fails at the token that its fault names. -/
theorem perform_account_deepLine :
    Reached 1 deepLine ((start 1 deepLine).perform .primary).2 ∧
      ((start 1 deepLine).perform .primary).2.depth = 2 ∧
      Op.unary.goal? = some (.part .unary) ∧
      ∃ r', ((start 1 deepLine).perform .primary).2.perform .unary =
          (.error (.grammar (.invalid ⟨.closeParen, [')']⟩)), r') ∧
        (r'.depth : Int) - 2 = 0 ∧ deepLine[r'.place]? = some ⟨.closeParen, [')']⟩ := by
  have h : Reached 1 deepLine ((start 1 deepLine).perform .primary).2 := .perform _ (.start rfl)
  have hop : Op.unary.goal? = some (.part .unary) := rfl
  obtain ⟨answer, r', hp, -, hcount, -, hplace⟩ := perform_account h hop
  obtain rfl : answer = .error (.grammar (.invalid ⟨.closeParen, [')']⟩)) :=
    (congrArg Prod.fst hp).symm
  have hr' : r' = _ := (congrArg Prod.snd hp).symm
  refine ⟨h, rfl, hop, r', hp, (hcount _ rfl).trans ?_, hplace _ rfl (by simp)⟩
  rw [hr']
  rfl

/-- At every place that operations lead to, there is a token ahead and no end of the line behind.
Every operation ends with an answer or a fault, further on or where it began.  The fault is one of
the grammar or a number just taken whose lexeme is no numeral: no token is missing, no token is
refused as a sign or an operator, and no loop runs out of rounds.  The levels open, a number that a
difference would cut off at zero, are in balance with the tokens taken, of which none closes a
level that was not open. -/
theorem perform_safe (h : Reached limit ts r) (op : Op) :
    r.tokens = ts ∧ r.place < ts.length ∧ (∀ t ∈ ts.take r.place, t.kind ≠ .eof) ∧
      ∃ answer r', r.perform op = (answer, r') ∧ r.place ≤ r'.place ∧
        (op.goal? = none → r'.depth = r.depth) ∧
        (∀ goal, op.goal? = some goal → ClosesOwn (r.between r') ∧
          r'.depth + closed (r.between r') = r.depth + opened (r.between r')) ∧
        ((∃ a, answer = .ok a) ∨ (∃ f, answer = .error (.grammar f)) ∨
          ∃ t, 0 < r'.place ∧ ts[r'.place - 1]? = some t ∧ t.kind = .number ∧
            Decimal.numeral? t.lexeme = none ∧
            answer = .error (.value (.notNumeral t.lexeme))) := by
  have hin := h.inLine
  refine ⟨hin.tokens_eq, hin.place_lt, hin.before_place, ?_⟩
  cases hop : op.goal? with
  | none =>
      obtain ⟨t, r', us, hp, hpass, hd⟩ := exists_token hop hin.isLine
      refine ⟨_, r', hp, ?_, fun _ => hd, by simp, .inl ⟨_, rfl⟩⟩
      rw [hpass.place_eq]
      omega
  | some goal =>
      obtain ⟨out, r', hc, hp⟩ := exists_course hop hin.isLine
      obtain ⟨us, hu⟩ := hc.exists_counts
      have htokens : r'.tokens = ts := hu.tokens_eq.trans hin.tokens_eq
      refine ⟨_, r', hp, ?_, by simp, fun _ _ => ?_, ?_⟩
      · rw [hu.place_eq]
        omega
      · rw [hu.between_eq]
        exact ⟨hu.closesOwn, hu.depth⟩
      · cases out with
        | ok e => exact .inl ⟨_, rfl⟩
        | error f =>
            cases hc.stopped rfl with
            | next _ _ | tooDeep _ => exact .inr (.inl ⟨_, rfl⟩)
            | unreadable htaken hk hv =>
                obtain ⟨hplace, ht⟩ := getElem?_pred_place htaken
                obtain ⟨hnumeral, rfl⟩ := Token.numeral?_of_value hk hv
                exact .inr (.inr ⟨_, hplace, htokens ▸ ht, hk, hnumeral, rfl⟩)

/-- A number whose lexeme is no numeral, with tokens after the end of the line. -/
def misreadLine : List Token :=
  [⟨.number, ['x']⟩, .endOfLine, ⟨.closeParen, [')']⟩, .endOfLine]

/-- A number token without a value is the fault of the whole, and the depth is accounted for. -/
theorem perform_safe_misreadLine :
    Reached 1 misreadLine (.start 1 misreadLine) ∧
      ∃ answer r', (start 1 misreadLine).perform .whole = (answer, r') ∧
        r'.depth + closed ((start 1 misreadLine).between r') =
          opened ((start 1 misreadLine).between r') ∧
        ∃ t, misreadLine[r'.place - 1]? = some t ∧ t.kind = .number ∧
          Decimal.numeral? t.lexeme = none ∧ answer = .error (.value (.notNumeral t.lexeme)) := by
  have h : Reached 1 misreadLine (.start 1 misreadLine) := .start rfl
  obtain ⟨-, -, -, answer, r', hp, -, -, hcount, hanswer⟩ := perform_safe h .whole
  have hvalue : answer = .error (.value (.notNumeral ['x'])) := (congrArg Prod.fst hp).symm
  refine ⟨h, answer, r', hp, (hcount _ rfl).2.trans (Nat.zero_add _), ?_⟩
  obtain ⟨a, ha⟩ | ⟨f, hf⟩ | ⟨t, -, ht⟩ := hanswer
  · cases hvalue.symm.trans ha
  · cases hvalue.symm.trans hf
  · exact ⟨t, ht⟩

end Reading

end LineCalc
