import LineCalc.Proofs.Evaluation.Context
import LineCalc.Proofs.Reading.Verdict

/-!
# LineCalc.Proofs.Reading.Group

A group, which is an expression between parentheses, in a list of tokens.
Whatever stands before it, the machine with one counter either rejects a token
no later than the parenthesis that opens, or passes the group from that one to
the other and has the same verdict on what follows, whichever expression is
between them (`Around.check_group`).  Where the line is accepted there is one
context around the group, and the line is read as this context filled with the
expression in the group: `Around.readTokens_group`.
-/

namespace LineCalc

variable {limit depth inner : Nat} {rank : Rank} {ts us before after : List Token}
variable {t p opening closing : Token} {e f : Expr} {expecting : Expecting}

/-! ## an operand in a derivation -/

/-- A number among tokens that are joined by an operator is on one side of it. -/
theorem number_of_append_cons {number : Token} (hn : number.kind = .number) (ht : t.kind ≠ .number)
    (h : ts ++ t :: us = before ++ number :: after) :
    (∃ more, ts = before ++ number :: more ∧ after = more ++ t :: us) ∨
      ∃ more, us = more ++ number :: after ∧ before = ts ++ t :: more := by
  have hne : number ≠ t := fun heq => ht (heq ▸ hn)
  obtain ⟨more, rfl, hmore⟩ | ⟨more, rfl, hmore⟩ := List.append_eq_append_iff.mp h
  · cases more with
    | nil => exact absurd (List.cons.inj hmore).1.symm hne
    | cons u more =>
        obtain ⟨rfl, rfl⟩ := List.cons.inj hmore
        exact .inr ⟨more, rfl, rfl⟩
  · cases more with
    | nil => exact absurd (List.cons.inj hmore).1 hne
    | cons u more =>
        obtain ⟨rfl, rfl⟩ := List.cons.inj hmore
        exact .inl ⟨more, rfl, rfl⟩

/-- Operands that stand between some tokens are all in one context. -/
def HasContext (depth : Nat) (rank : Rank) (before after : List Token) : Prop :=
  ∃ c : Context, ∀ inner us f, Derives inner .primary us f →
    Derives (depth + inner) rank (before ++ us ++ after) (c.fill f)

/-- A number on one side of an operator is in a context, if it is in one on its side. -/
theorem hasContext_of_operator {number : Token} {lower : Rank} {o : Operator} {l r : Expr}
    (hn : number.kind = .number) (hk : t.kind ≠ .number)
    (join : ∀ {depth ts us l r}, Derives depth rank ts l → Derives depth lower us r →
      Derives depth rank (ts ++ t :: us) (.binary o l r))
    (hl : Derives depth rank ts l) (hr : Derives depth lower us r)
    (ihl : ∀ {before after}, ts = before ++ number :: after → HasContext depth rank before after)
    (ihr : ∀ {before after}, us = before ++ number :: after → HasContext depth lower before after)
    (hts : ts ++ t :: us = before ++ number :: after) : HasContext depth rank before after := by
  obtain ⟨more, hmore, rfl⟩ | ⟨more, hmore, rfl⟩ := number_of_append_cons hn hk hts
  · obtain ⟨c, hfill⟩ := ihl hmore
    refine ⟨.left o c r, fun inner us f hf => ?_⟩
    simpa [Context.fill] using join (hfill inner us f hf) (hr.mono (Nat.le_add_right _ _))
  · obtain ⟨c, hfill⟩ := ihr hmore
    refine ⟨.right o l c, fun inner us f hf => ?_⟩
    simpa [Context.fill] using join (hl.mono (Nat.le_add_right _ _)) (hfill inner us f hf)

/-- Where a number is an operand, any other operand can be, and the expression is the same around
it. -/
theorem Derives.hasContext (h : Derives depth rank ts e) {number : Token}
    (hn : number.kind = .number) (hts : ts = before ++ number :: after) :
    HasContext depth rank before after := by
  induction h generalizing before after with
  | @number _ t x _ _ =>
      obtain ⟨rfl, rfl⟩ : before = [] ∧ after = [] := by
        have hlength := congrArg List.length hts
        simp only [List.length_append, List.length_cons, List.length_nil] at hlength
        exact ⟨List.length_eq_zero_iff.mp (by omega), List.length_eq_zero_iff.mp (by omega)⟩
      refine ⟨.hole, fun inner us f hf => ?_⟩
      simpa [Context.fill] using hf.mono (Nat.le_add_left _ _)
  | @parentheses _ opening closing ts e ho hc _ ih =>
      have hts : [] ++ opening :: (ts ++ closing :: []) = before ++ number :: after := by
        simpa using hts
      obtain ⟨more, hmore, -⟩ | ⟨more, hmore, rfl⟩ :=
        number_of_append_cons hn (by simp [ho]) hts
      · simp at hmore
      · obtain ⟨rest, hrest, rfl⟩ | ⟨rest, hrest, -⟩ :=
          number_of_append_cons hn (by simp [hc]) hmore
        · obtain ⟨c, hfill⟩ := ih hrest
          refine ⟨c, fun inner us f hf => ?_⟩
          simpa [Nat.add_right_comm] using Derives.parentheses ho hc (hfill inner us f hf)
        · simp at hrest
  | unsigned _ ih =>
      obtain ⟨c, hfill⟩ := ih hts
      exact ⟨c, fun inner us f hf => .unsigned (hfill inner us f hf)⟩
  | factor _ ih =>
      obtain ⟨c, hfill⟩ := ih hts
      exact ⟨c, fun inner us f hf => .factor (hfill inner us f hf)⟩
  | term _ ih =>
      obtain ⟨c, hfill⟩ := ih hts
      exact ⟨c, fun inner us f hf => .term (hfill inner us f hf)⟩
  | @signed _ t s ts e hs _ ih =>
      have hk := (Kind.not_operand_of_sign? hs).1
      have hts : [] ++ t :: ts = before ++ number :: after := hts
      obtain ⟨more, hmore, -⟩ | ⟨more, hmore, rfl⟩ := number_of_append_cons hn hk hts
      · simp at hmore
      · obtain ⟨c, hfill⟩ := ih hmore
        exact ⟨.signed s c, fun inner us f hf => .signed hs (hfill inner us f hf)⟩
  | multiply hl ho hr ihl ihr =>
      have hk := (Kind.not_operand_of_operator? (Kind.operator?_of_multiplicative? ho)).1
      exact hasContext_of_operator hn hk (fun hl => hl.multiply ho) hl hr ihl ihr hts
  | add hl ho hr ihl ihr =>
      have hk := (Kind.not_operand_of_operator? (Kind.operator?_of_additive? ho)).1
      exact hasContext_of_operator hn hk (fun hl => hl.add ho) hl hr ihl ihr hts

/-! ## the machine at a group -/

namespace Counter

/-- Tokens before the end of the line are rejected whatever follows, or take the machine to a state
in which it goes on. -/
theorem verdict_front (limit : Nat) (p : Token) (expecting : Expecting) (depth : Nat)
    (hts : ∀ t ∈ ts, t.kind ≠ .eof) :
    (∃ f, ∀ more, verdict limit expecting depth p (ts ++ more) = .error f) ∨
      ∃ expecting' depth' p', depth' ≤ depth + opened ts ∧ ∀ more,
        verdict limit expecting depth p (ts ++ more) = verdict limit expecting' depth' p' more := by
  induction ts generalizing expecting depth p with
  | nil => exact .inr ⟨expecting, depth, p, Nat.le_add_right _ _, fun _ => rfl⟩
  | cons t ts ih =>
      obtain ⟨ht, hts⟩ := List.forall_mem_cons.mp hts
      cases hm : move limit depth p t expecting with
      | reject f => exact .inl ⟨f, fun more => by rw [List.cons_append, verdict, hm]⟩
      | accept =>
          have he := effect_move limit depth p t expecting
          rw [hm] at he
          cases he with
          | finish hk _ => exact absurd hk ht
      | next expecting' depth' =>
          obtain ⟨-, hd⟩ := depth_of_move hm
          have hstep : ∀ more, verdict limit expecting depth p (t :: ts ++ more) =
              verdict limit expecting' depth' t (ts ++ more) := fun more => by
            rw [List.cons_append, verdict, hm]
          obtain ⟨f, hf⟩ | ⟨expecting'', depth'', p'', hle, hverdict⟩ := ih t expecting' depth' hts
          · exact .inl ⟨f, fun more => (hstep more).trans (hf more)⟩
          · refine .inr ⟨expecting'', depth'', p'', ?_,
              fun more => (hstep more).trans (hverdict more)⟩
            rw [opened_cons]
            omega

/-- The tokens of an expression take the machine from an operand expected to an operator expected,
if a parenthesis closes after them. -/
theorem verdict_derives (h : Derives inner .addition ts e) (hle : depth + 1 + inner ≤ limit)
    (hc : closing.kind = .closeParen) :
    verdict limit .operand (depth + 1) p (ts ++ closing :: after) =
      verdict limit .operator depth closing after := by
  let r : Reading := ⟨limit, [p], ts ++ closing :: after, depth + 1, []⟩
  have hroom : Derives (limit - (depth + 1)) .addition ts e := h.mono (by omega)
  have hcourse := (hroom.leads (r := r) rfl).addition rfl (by rw [hc]; rfl)
  have hjudges := hcourse.agrees (by show _ + (depth + 1) = limit; omega)
  exact (hjudges.passes e rfl).trans (verdictAt_close rfl hc (Nat.succ_pos depth))

/-- Where an operand is expected and no sign comes, it makes no difference whether one may come. -/
theorem move_of_unsigned (hs : t.kind.sign? = none) (he : expecting ≠ .operator) :
    move limit depth p t expecting = move limit depth p t .signedOperand := by
  cases expecting with
  | operand => exact move_unsigned hs
  | signedOperand => rfl
  | operator => exact absurd rfl he

/-- A group takes the machine from an operand expected to an operator expected. -/
theorem verdict_group (h : Derives inner .addition ts e) (hle : depth + 1 + inner ≤ limit)
    (ho : opening.kind = .openParen) (hc : closing.kind = .closeParen)
    (he : expecting ≠ .operator) :
    verdict limit expecting depth p (opening :: (ts ++ closing :: after)) =
      verdict limit .operator depth closing after := by
  have hmove : move limit depth p opening expecting = .next .operand (depth + 1) :=
    (move_of_unsigned (by rw [ho]; rfl) he).trans (move_open ho (by omega))
  rw [verdict, hmove]
  exact verdict_derives h hle hc

/-- What comes before a group is rejected there, or the parenthesis that opens is, or the group is
where an operand may be. -/
theorem check_front (limit : Nat) (hb : ∀ t ∈ before, t.kind ≠ .eof)
    (ho : opening.kind = .openParen) :
    (∃ f, ∀ more, check limit (before ++ opening :: more) = .error f) ∨
      ∃ expecting depth p, expecting ≠ .operator ∧ depth ≤ opened before ∧
        ∀ more, check limit (before ++ more) = verdict limit expecting depth p more := by
  obtain ⟨f, hf⟩ | ⟨expecting, depth, p, hle, hverdict⟩ :=
    verdict_front limit .endOfLine .operand 0 hb
  · exact .inl ⟨f, fun more => hf _⟩
  · by_cases he : expecting = .operator
    · have hk : opening.kind.operator? = none := by rw [ho]; rfl
      have hreject : ∃ f, move limit depth p opening .operator = .reject f := by
        cases depth with
        | zero => exact ⟨_, move_leftOver (by simp [ho]) hk⟩
        | succ depth => exact ⟨_, move_unclosed (by simp [ho]) hk⟩
      obtain ⟨f, hf⟩ := hreject
      refine .inl ⟨f, fun more => ?_⟩
      rw [check, hverdict, he, verdict, hf]
    · exact .inr ⟨expecting, depth, p, he, by omega, hverdict⟩

/-- The token before another one is only named, where that one is rejected. -/
theorem move_previous (limit depth : Nat) (p q t : Token) :
    (∃ f, move limit depth p t .operator = .reject f) ∨
      move limit depth q t .operator = move limit depth p t .operator := by
  cases ho : t.kind.operator? with
  | some o => exact .inr (by rw [move_operator ho, move_operator ho])
  | none =>
      cases depth with
      | zero =>
          by_cases hk : t.kind = .eof
          · exact .inr (by rw [move_end hk, move_end hk])
          · exact .inl ⟨_, move_leftOver hk ho⟩
      | succ depth =>
          by_cases hk : t.kind = .closeParen
          · exact .inr (by rw [move_close hk, move_close hk])
          · exact .inl ⟨_, move_unclosed hk ho⟩

/-- The token before the rest of a line has no part in whether the line is accepted. -/
theorem verdict_previous (q : Token) (h : verdict limit .operator depth p ts = .ok ()) :
    verdict limit .operator depth q ts = .ok () := by
  cases ts with
  | nil =>
      obtain ⟨f, hf⟩ | hq := move_previous limit depth p q .endOfLine
      · rw [verdict, hf] at h
        cases h
      · rw [verdict, hq, ← verdict, h]
  | cons t ts =>
      obtain ⟨f, hf⟩ | hq := move_previous limit depth p q t
      · rw [verdict, hf] at h
        cases h
      · rw [verdict, hq, ← verdict, h]

end Counter

/-! ## groups in a line -/

/-- The numbers of an expression have values. -/
theorem Derives.readable (h : Derives depth rank ts e) : Readable ts := by
  induction h with
  | @number _ t x _ hv =>
      intro u hu _
      obtain rfl := List.mem_singleton.mp hu
      exact ⟨x, hv⟩
  | parentheses ho hc _ ih => simpa [Readable, or_imp, forall_and, ho, hc] using ih
  | unsigned _ ih | factor _ ih | term _ ih => exact ih
  | signed hs _ ih =>
      have hk := (Kind.not_operand_of_sign? hs).1
      exact List.forall_mem_cons.mpr ⟨fun hn => absurd hn hk, ih⟩
  | multiply _ ho _ ihl ihr =>
      have hk := (Kind.not_operand_of_operator? (Kind.operator?_of_multiplicative? ho)).1
      exact List.forall_mem_append.mpr
        ⟨ihl, List.forall_mem_cons.mpr ⟨fun hn => absurd hn hk, ihr⟩⟩
  | add _ ho _ ihl ihr =>
      have hk := (Kind.not_operand_of_operator? (Kind.operator?_of_additive? ho)).1
      exact List.forall_mem_append.mpr
        ⟨ihl, List.forall_mem_cons.mpr ⟨fun hn => absurd hn hk, ihr⟩⟩

/-- What stands around a group in a line, with the parentheses of the group. -/
structure Around where
  before : List Token
  opening : Token
  closing : Token
  after : List Token
  before_end : ∀ t ∈ before, t.kind ≠ .eof
  opens : opening.kind = .openParen
  closes : closing.kind = .closeParen
  isLine_after : Reading.isLine after = true
  readable_before : Readable before
  readable_after : Readable after

namespace Around

variable (w : Around)

/-- Tokens between the parentheses of the group. -/
def group (ts : List Token) : List Token := w.opening :: ts ++ [w.closing]

/-- The line with some tokens in the place of the group. -/
def line (ts : List Token) : List Token := w.before ++ ts ++ w.after

/-- The line with a group, from its sides and the tokens between them. -/
theorem line_group (ts : List Token) :
    w.line (w.group ts) = w.before ++ w.opening :: (ts ++ w.closing :: w.after) := by
  simp [line, group]

/-- Whatever is put between the sides, it is a line. -/
theorem isLine_line (ts : List Token) : Reading.isLine (w.line ts) = true :=
  Reading.isLine_append _ w.isLine_after

/-- Between the sides, readable tokens make a readable line. -/
theorem readable_line (h : Readable ts) : Readable (w.line ts) :=
  List.forall_mem_append.mpr ⟨List.forall_mem_append.mpr ⟨w.readable_before, h⟩, w.readable_after⟩

variable {w}

/-- With the tokens of an operand in its place a line that is accepted is read as a derivation
says. -/
theorem exists_of_check (h : Derives depth rank ts e)
    (hcheck : Counter.check limit (w.line ts) = .ok ()) :
    ∃ f, readTokens limit (w.line ts) = .ok f ∧
      Derives limit .addition (w.before ++ ts ++ beforeEnd w.after) f := by
  have hfront : ∀ t ∈ w.before ++ ts, t.kind ≠ .eof :=
    List.forall_mem_append.mpr ⟨w.before_end, h.before_end⟩
  have hend : beforeEnd (w.line ts) = w.before ++ ts ++ beforeEnd w.after :=
    List.takeWhile_append_of_pos (by simpa using hfront)
  obtain ⟨f, hf⟩ :=
    (readTokens_ok_iff_check (w.isLine_line ts) (w.readable_line h.readable)).mpr hcheck
  exact ⟨f, hf, hend ▸ (readTokens_eq_ok_iff (w.isLine_line ts)).mp hf⟩

/-- The verdict is the same whatever expression is in the group, if the limit leaves room for it. -/
theorem check_group (hle : opened w.before + 1 + inner ≤ limit)
    (ht : Derives inner .addition ts e) (hu : Derives inner .addition us f) :
    Counter.check limit (w.line (w.group ts)) = Counter.check limit (w.line (w.group us)) := by
  rw [line_group, line_group]
  obtain ⟨g, hg⟩ | ⟨expecting, depth, p, he, hd, hverdict⟩ :=
    Counter.check_front limit w.before_end w.opens
  · rw [hg, hg]
  · rw [hverdict, hverdict, Counter.verdict_group ht (by omega) w.opens w.closes he,
      Counter.verdict_group hu (by omega) w.opens w.closes he]

/-- Where a group is accepted a number would be. -/
theorem check_number (hle : opened w.before + 1 + inner ≤ limit)
    (ht : Derives inner .addition ts e) (hn : t.kind = .number)
    (h : Counter.check limit (w.line (w.group ts)) = .ok ()) :
    Counter.check limit (w.line [t]) = .ok () := by
  rw [line_group] at h
  obtain ⟨g, hg⟩ | ⟨expecting, depth, p, he, hd, hverdict⟩ :=
    Counter.check_front limit w.before_end w.opens
  · simp [hg] at h
  · have hmove : Counter.move limit depth p t expecting = .next .operator depth :=
      (Counter.move_of_unsigned (by rw [hn]; rfl) he).trans (Counter.move_number hn)
    rw [hverdict, Counter.verdict_group ht (by omega) w.opens w.closes he] at h
    rw [line, List.append_assoc, hverdict, List.singleton_append, Counter.verdict, hmove]
    exact Counter.verdict_previous t h

/-- Whatever expression is in the group, the line fails by the grammar in one way, or there is one
context in which the expression is read. -/
theorem readTokens_group (hle : opened w.before + 1 + inner ≤ limit) :
    (∃ g, ∀ ts e, Derives inner .addition ts e →
      readTokens limit (w.line (w.group ts)) = .error (.grammar g)) ∨
    ∃ c : Context, ∀ ts e, Derives inner .addition ts e →
      readTokens limit (w.line (w.group ts)) = .ok (c.fill e) := by
  have parenthesised : ∀ {us f}, Derives inner .addition us f →
      Derives (inner + 1) .primary (w.group us) f := .parentheses w.opens w.closes
  -- a number is an operand of one token, so its place in a derivation is that of the group
  let t : Token := ⟨.number, ['1']⟩
  have ht : Derives inner .addition [t] _ := .term (.factor (.unsigned (.number rfl rfl)))
  cases h : Counter.check limit (w.line (w.group [t])) with
  | error g =>
      refine .inl ⟨g, fun us f hf => ?_⟩
      have hreadable := w.readable_line (parenthesised hf).readable
      exact (readTokens_error_iff_check (w.isLine_line _) hreadable).mpr
        ((check_group hle hf ht).trans h)
  | ok _ =>
      obtain ⟨g, -, hg⟩ := exists_of_check ht (check_number hle ht rfl h)
      rw [List.append_assoc] at hg
      obtain ⟨c, hfill⟩ := hg.hasContext rfl rfl
      refine .inr ⟨c, fun us f hf => ?_⟩
      obtain ⟨g', hread, hg'⟩ :=
        exists_of_check (parenthesised hf) ((check_group hle hf ht).trans h)
      rw [hread, hg'.unique (hfill _ _ f (parenthesised hf))]

end Around

end LineCalc
