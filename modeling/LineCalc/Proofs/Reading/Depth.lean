import LineCalc.Proofs.Reading.Acceptance

/-!
# LineCalc.Proofs.Reading.Depth

What a limit on open parentheses changes.  A course that does not end at a
parenthesis too many needs as much room as the tokens that it takes are nested
deep, and with any such room it is the same (`Course.fits`); one that does end
there has used its room up (`Course.full`).  An expression is derived within
the depth to which its tokens are nested, and within no less
(`Derives.iff_nestsWithin`).  So every line has one height, that of the tokens
which are taken when no limit stops the reading: under every limit from there
on the reading ends in the same way and at the same place, and under every
lesser one at a parenthesis (`readTokens_by_limit`).
-/

namespace LineCalc

variable {room limit wider depth n : Nat} {goal : Goal} {r r' : Reading} {t : Token}
variable {rank : Rank} {e : Expr}
variable {ts us vs front : List Token} {out : Except Reading.Fault Expr} {f : GrammarFault}

/-! ## the height of tokens -/

/-- The most parentheses that are open at one place. -/
def height : List Token → Nat
  | [] => 0
  | t :: ts =>
    match t.kind with
    | .openParen => height ts + 1
    | .closeParen => height ts - 1
    | _ => height ts

/-- An opening parenthesis adds a level. -/
theorem height_cons_open (hk : t.kind = .openParen) : height (t :: ts) = height ts + 1 := by
  rw [height, hk]

/-- A closing parenthesis takes one away. -/
theorem height_cons_close (hk : t.kind = .closeParen) : height (t :: ts) = height ts - 1 := by
  rw [height, hk]

/-- Any other token leaves the height. -/
theorem height_cons (hk : t.kind ≠ .openParen ∧ t.kind ≠ .closeParen) :
    height (t :: ts) = height ts := by
  rw [height]
  split
  · next h => exact absurd h hk.1
  · next h => exact absurd h hk.2
  · rfl

theorem height_singleton (hk : t.kind ≠ .openParen ∧ t.kind ≠ .closeParen) : height [t] = 0 :=
  height_cons hk

/-- The height of two texts is that of the first or that of the second, above what the first leaves
open. -/
theorem height_append (us vs : List Token) :
    height (us ++ vs) = max (height us) (opened us + height vs - closed us) := by
  induction us with
  | nil => simp [height, opened, closed]
  | cons t us ih =>
      rw [List.cons_append, opened_cons, closed_cons]
      by_cases ho : t.kind = .openParen
      · rw [height_cons_open ho, height_cons_open ho, ih]
        simp [ho]
        omega
      · by_cases hc : t.kind = .closeParen
        · rw [height_cons_close hc, height_cons_close hc, ih]
          simp [hc]
          omega
        · rw [height_cons ⟨ho, hc⟩, height_cons ⟨ho, hc⟩, ih]
          simp [ho, hc]

/-- After tokens that close what they open the count begins anew. -/
theorem height_append_of_balanced (h : opened us = closed us) :
    height (us ++ vs) = max (height us) (height vs) := by
  rw [height_append]
  omega

/-- Tokens none of which is a parenthesis. -/
def Flat (ts : List Token) : Prop := ∀ t ∈ ts, t.kind ≠ .openParen ∧ t.kind ≠ .closeParen

theorem Flat.nil : Flat [] := by simp [Flat]

/-- A token that is no parenthesis is flat. -/
theorem Flat.singleton (hk : t.kind ≠ .openParen ∧ t.kind ≠ .closeParen) : Flat [t] := by
  simpa [Flat] using hk

/-- Flat tokens in front leave the height. -/
theorem Flat.height_append (h : Flat front) (us : List Token) :
    height (front ++ us) = height us := by
  induction front with
  | nil => rfl
  | cons t front ih =>
      obtain ⟨hk, hfront⟩ := List.forall_mem_cons.mp h
      rw [List.cons_append, height_cons hk, ih hfront]

/-- Flat tokens have no height. -/
theorem Flat.height_eq (h : Flat us) : height us = 0 := by
  simpa [height] using h.height_append []

/-- Flat tokens close as much as they open. -/
theorem Flat.balanced (h : Flat us) : opened us = closed us := by
  have hopened : opened us = 0 := List.countP_eq_zero.mpr fun t ht => by simp [(h t ht).1]
  have hclosed : closed us = 0 := List.countP_eq_zero.mpr fun t ht => by simp [(h t ht).2]
  rw [hopened, hclosed]

/-- The height is at most the number of parentheses opened. -/
theorem height_le_opened (ts : List Token) : height ts ≤ opened ts := by
  induction ts with
  | nil => exact Nat.zero_le _
  | cons t ts ih =>
      rw [height, opened_cons]
      split <;> simp_all
      omega

/-- The nesting of tokens, looked at from the first of them. -/
theorem nestsWithin_cons {depth : Nat} : NestsWithin depth (t :: ts) ↔
    ∀ us, us <+: ts → opened (t :: us) ≤ closed (t :: us) + depth := by
  constructor
  · exact fun h us hu => h (t :: us) (List.cons_prefix_cons.mpr ⟨rfl, hu⟩)
  · rintro h (_ | ⟨u, us⟩) hf
    · exact Nat.zero_le _
    · obtain ⟨rfl, hu⟩ := List.cons_prefix_cons.mp hf
      exact h us hu

/-- The height is the least depth that the tokens are nested within. -/
theorem height_le_iff (ts : List Token) (depth : Nat) :
    height ts ≤ depth ↔ NestsWithin depth ts := by
  induction ts generalizing depth with
  | nil =>
      refine ⟨fun _ front hf => ?_, fun _ => Nat.zero_le _⟩
      rw [List.prefix_nil.mp hf]
      exact Nat.zero_le _
  | cons t ts ih =>
      rw [nestsWithin_cons]
      simp only [opened_cons, closed_cons]
      by_cases ho : t.kind = .openParen
      · rw [height_cons_open ho]
        simp only [ho, if_true, reduceCtorEq, if_false, Nat.add_zero]
        cases depth with
        | zero =>
            refine ⟨fun h => absurd h (Nat.not_succ_le_zero _), fun h => ?_⟩
            exact absurd (h [] List.nil_prefix) (by simp [opened, closed])
        | succ less =>
            rw [Nat.add_le_add_iff_right, ih]
            exact forall₂_congr fun us _ => by omega
      · by_cases hc : t.kind = .closeParen
        · rw [height_cons_close hc, Nat.sub_le_iff_le_add, ih]
          simp only [hc, reduceCtorEq, if_false, if_true]
          exact forall₂_congr fun us _ => by omega
        · rw [height_cons ⟨ho, hc⟩, ih]
          simp only [ho, hc, if_false, Nat.add_zero]
          rfl

/-- The tokens of an expression are nested no deeper than it is derived. -/
theorem Derives.height_le (h : Derives depth rank ts e) : height ts ≤ depth := by
  induction h with
  | number hk _ =>
      rw [height_singleton (by simp [hk])]
      exact Nat.zero_le _
  | parentheses ho hc hd ih =>
      rw [List.cons_append, height_cons_open ho, height_append_of_balanced hd.balanced,
        height_cons_close hc]
      simpa [height] using ih
  | unsigned _ ih | factor _ ih | term _ ih => exact ih
  | signed hs _ ih => rwa [height_cons (Kind.not_paren_of_sign? hs)]
  | multiply hl ho _ ihl ihr =>
      have hk := Kind.not_paren_of_operator? (Kind.operator?_of_multiplicative? ho)
      rw [height_append_of_balanced hl.balanced, height_cons hk]
      exact Nat.max_le.mpr ⟨ihl, ihr⟩
  | add hl ho _ ihl ihr =>
      have hk := Kind.not_paren_of_operator? (Kind.operator?_of_additive? ho)
      rw [height_append_of_balanced hl.balanced, height_cons hk]
      exact Nat.max_le.mpr ⟨ihl, ihr⟩

/-- Tokens derive an expression within the depth to which they are nested, and within no less. -/
theorem Derives.iff_nestsWithin (h : Derives n rank ts e) :
    Derives depth rank ts e ↔ NestsWithin depth ts :=
  ⟨fun h => (height_le_iff ts depth).mp h.height_le, h.narrow⟩

/-! ## courses under another limit -/

/-- The same place under another limit. -/
def Reading.under (limit : Nat) (r : Reading) : Reading := { r with limit }

/-- A course that takes the tokens `us` needs no more room than they are nested deep. -/
structure Fits (room : Nat) (goal : Goal) (r : Reading) (out : Except Reading.Fault Expr)
    (r' : Reading) (us : List Token) : Prop where
  passes : r.Passes us r'
  /-- What an expression opens, it closes. -/
  balanced : ∀ e, out = .ok e → opened us = closed us
  height_le : height us ≤ room
  resize : ∀ wider limit, height us ≤ wider →
    Course wider goal (r.under limit) out (r'.under limit)

/-- Where there is room for a parenthesis and what is in it, one level less is left for that. -/
theorem exists_room_within (hk : t.kind = .openParen) (h : height (t :: us) ≤ room) :
    ∃ less, room = less + 1 ∧ height us ≤ less := by
  rw [height_cons_open hk] at h
  exact ⟨room - 1, by omega, by omega⟩

/-- A course over tokens none of which is a parenthesis needs no room. -/
theorem Fits.flat (hp : r.Passes us r') (hu : Flat us)
    (hcourse : ∀ wider limit, Course wider goal (r.under limit) out (r'.under limit)) :
    Fits room goal r out r' us where
  passes := hp
  balanced _ _ := hu.balanced
  height_le := hu.height_eq ▸ Nat.zero_le _
  resize wider limit _ := hcourse wider limit

/-- A course that goes on as another one, behind tokens that are no parentheses, needs the room of
the other. -/
theorem Fits.behind {outer : Goal} {out' : Except Reading.Fault Expr} {r₀ r₁ : Reading}
    (h : Fits room goal r out r' us) (hp : r₀.Passes front r) (hf : Flat front)
    (hend : r'.Passes [] r₁) (hok : ∀ e, out' = .ok e → ∃ e', out = .ok e')
    (hcourse : ∀ wider limit, Course wider goal (r.under limit) out (r'.under limit) →
      Course wider outer (r₀.under limit) out' (r₁.under limit)) :
    Fits room outer r₀ out' r₁ (front ++ us) where
  passes := by simpa using (hp.trans h.passes).trans hend
  balanced e he := by
    obtain ⟨e', he'⟩ := hok e he
    rw [opened_append, closed_append, hf.balanced, h.balanced e' he']
  height_le := hf.height_append us ▸ h.height_le
  resize wider limit hw := hcourse wider limit (h.resize wider limit (hf.height_append us ▸ hw))

/-- Two courses, one after the other and behind tokens that are no parentheses, need the room of
that which needs more, since the first of them closes what it opens. -/
theorem Fits.append {outer inner : Goal} {r₀ r₁ : Reading} (h : Fits room inner r (.ok e) r₁ us)
    (h' : Fits room goal r₁ out r' vs) (hp : r₀.Passes front r) (hf : Flat front)
    (hcourse : ∀ wider limit, Course wider inner (r.under limit) (.ok e) (r₁.under limit) →
      Course wider goal (r₁.under limit) out (r'.under limit) →
      Course wider outer (r₀.under limit) out (r'.under limit)) :
    Fits room outer r₀ out r' (front ++ (us ++ vs)) := by
  have hb := h.balanced e rfl
  have hheight : height (front ++ (us ++ vs)) = max (height us) (height vs) := by
    rw [hf.height_append, height_append_of_balanced hb]
  refine ⟨hp.trans (h.passes.trans h'.passes), fun e' he' => ?_, ?_, fun wider limit hw => ?_⟩
  · simp only [opened_append, closed_append, hf.balanced, hb, h'.balanced e' he']
  · rw [hheight]
    exact Nat.max_le.mpr ⟨h.height_le, h'.height_le⟩
  · obtain ⟨hl, hr⟩ := Nat.max_le.mp (hheight ▸ hw)
    exact hcourse wider limit (h.resize wider limit hl) (h'.resize wider limit hr)

/-- A course within a parenthesis that is not closed needs one level more. -/
theorem Fits.within {outer : Goal} {fault : Reading.Fault} {r₁ : Reading}
    (h : Fits room goal r.shift.enter out r' us) (ha : r.ahead = t :: ts)
    (hk : t.kind = .openParen) (hend : r'.Passes [] r₁)
    (hcourse : ∀ less limit,
      Course less goal (r.shift.enter.under limit) out (r'.under limit) →
      Course (less + 1) outer (r.under limit) (.error fault) (r₁.under limit)) :
    Fits (room + 1) outer r (.error fault) r₁ (t :: us) where
  passes := by
    simpa using ((Reading.Passes.shift ha (by simp [hk])).enter.trans h.passes).trans hend
  balanced _ he := by cases he
  height_le := by
    rw [height_cons_open hk]
    exact Nat.succ_le_succ h.height_le
  resize wider limit hw := by
    obtain ⟨less, rfl, hl⟩ := exists_room_within hk hw
    exact hcourse less limit (h.resize less limit hl)

/-- A group closes what it opens, and needs one level more than what is in it. -/
theorem Fits.closed {c : Token} {cs : List Token}
    (h : Fits room (.part .addition) r.shift.enter (.ok e) r' us) (ha : r.ahead = t :: ts)
    (hk : t.kind = .openParen) (hc : r'.ahead = c :: cs) (hck : c.kind = .closeParen) :
    Fits (room + 1) (.part .primary) r (.ok e) r'.shift.leave (t :: (us ++ [c])) := by
  have hb := h.balanced e rfl
  have hheight : height (t :: (us ++ [c])) = height (t :: us) := by
    rw [height_cons_open hk, height_cons_open hk, height_append_of_balanced hb,
      height_cons_close hck]
    simp [height]
  refine ⟨(((Reading.Passes.shift ha (by simp [hk])).enter.trans h.passes).trans
    (.shift hc (by simp [hck]))).leave, fun _ _ => ?_, ?_, fun wider limit hw => ?_⟩
  · simp [opened_cons, closed_cons, hk, hck, hb]
    simp [opened, LineCalc.closed]
  · rw [hheight, height_cons_open hk]
    exact Nat.succ_le_succ h.height_le
  · obtain ⟨less, rfl, hl⟩ := exists_room_within hk (hheight ▸ hw)
    show Course _ _ (r.under limit) _ (r'.under limit).shift.leave
    exact .closed ha hk (h.resize less limit hl) hc hck

/-- A course that does not end at a parenthesis too many is the same wherever there is room for
the tokens that it takes. -/
theorem Course.fits (h : Course room goal r out r')
    (hout : ∀ t, out ≠ .error (.grammar (.tooDeep t))) : ∃ us, Fits room goal r out r' us := by
  induction h with
  | number ha hk hv =>
      exact ⟨_, .flat (.shift ha (by simp [hk])) (.singleton (by simp [hk]))
        fun _ _ => .number ha hk hv⟩
  | unreadable ha hk hv =>
      exact ⟨_, .flat (.shift ha (by simp [hk])) (.singleton (by simp [hk]))
        fun _ _ => .unreadable ha hk hv⟩
  | invalid ha hn ho =>
      exact ⟨_, .flat ((Reading.Passes.refl _).report _) .nil fun _ _ => .invalid ha hn ho⟩
  | @tooDeep _ t _ _ _ => exact absurd rfl (hout t)
  | faultWithin ha hk _ ih =>
      obtain ⟨us, hu⟩ := ih hout
      exact ⟨_, hu.within ha hk (.refl _) fun _ _ hcourse => .faultWithin ha hk hcourse⟩
  | @unclosed _ r r' _ _ _ _ _ _ ha hk _ hc hck hp ih =>
      obtain ⟨us, hu⟩ := ih (by simp)
      refine ⟨_, hu.within ha hk ((Reading.Passes.refl _).report _) fun _ limit hcourse => ?_⟩
      show Course _ _ (r.under limit) _ ((r'.under limit).report _)
      exact .unclosed ha hk hcourse hc hck hp
  | closed ha hk _ hc hck ih =>
      obtain ⟨us, hu⟩ := ih (by simp)
      exact ⟨_, hu.closed ha hk hc hck⟩
  | unsigned ha hs _ ih =>
      obtain ⟨us, hu⟩ := ih hout
      exact ⟨_, hu.behind (.refl _) .nil (.refl _) (fun e he => ⟨e, he⟩)
        fun _ _ hcourse => .unsigned ha hs hcourse⟩
  | faultUnderSign ha hs _ ih =>
      obtain ⟨us, hu⟩ := ih hout
      exact ⟨_, hu.behind (.shift ha (Kind.ne_eof_of_sign? hs))
        (.singleton (Kind.not_paren_of_sign? hs)) (.refl _) (fun _ he => by cases he)
        fun _ _ hcourse => .faultUnderSign ha hs hcourse⟩
  | signed ha hs _ ih =>
      obtain ⟨us, hu⟩ := ih (by simp)
      exact ⟨_, hu.behind (.shift ha (Kind.ne_eof_of_sign? hs))
        (.singleton (Kind.not_paren_of_sign? hs)) (.refl _) (fun _ _ => ⟨_, rfl⟩)
        fun _ _ hcourse => .signed ha hs hcourse⟩
  | faultFirst hi _ ih =>
      obtain ⟨us, hu⟩ := ih hout
      exact ⟨_, hu.behind (.refl _) .nil (.refl _) (fun _ he => by cases he)
        fun _ _ hcourse => .faultFirst hi hcourse⟩
  | first hi _ _ ih ih' =>
      obtain ⟨us, hu⟩ := ih (by simp)
      obtain ⟨vs, hv⟩ := ih' hout
      exact ⟨_, hu.append hv (.refl _) .nil fun _ _ hcourse hrest => .first hi hcourse hrest⟩
  | last ha ho =>
      exact ⟨_, .flat (.refl _) .nil fun _ _ => .last ha ho⟩
  | faultNext ha ho hi _ ih =>
      obtain ⟨us, hu⟩ := ih hout
      exact ⟨_, hu.behind (.shift ha (Rank.ne_eof_of_operator? ho))
        (.singleton (Kind.not_paren_of_operator? (Rank.operator?_of_rank ho))) (.refl _)
        (fun _ he => by cases he) fun _ _ hcourse => .faultNext ha ho hi hcourse⟩
  | next ha ho hi _ _ ih ih' =>
      obtain ⟨us, hu⟩ := ih (by simp)
      obtain ⟨vs, hv⟩ := ih' hout
      exact ⟨_, hu.append hv (.shift ha (Rank.ne_eof_of_operator? ho))
        (.singleton (Kind.not_paren_of_operator? (Rank.operator?_of_rank ho)))
        fun _ _ hcourse hrest => .next ha ho hi hcourse hrest⟩
  | faultWhole _ ih =>
      obtain ⟨us, hu⟩ := ih hout
      exact ⟨_, hu.behind (.refl _) .nil (.refl _) (fun _ he => by cases he)
        fun _ _ hcourse => .faultWhole hcourse⟩
  | leftOver _ ha hk ih =>
      obtain ⟨us, hu⟩ := ih (by simp)
      exact ⟨_, hu.behind (.refl _) .nil ((Reading.Passes.refl _).report _)
        (fun _ he => by cases he) fun _ _ hcourse => .leftOver hcourse ha hk⟩
  | whole _ ha hk ih =>
      obtain ⟨us, hu⟩ := ih (by simp)
      exact ⟨_, hu.behind (.refl _) .nil (.refl _) (fun e he => ⟨e, he⟩)
        fun _ _ hcourse => .whole hcourse ha hk⟩

/-- A course that takes the tokens `us` has used its room up, and one level more. -/
structure Fills (room : Nat) (r r' : Reading) (us : List Token) : Prop where
  passes : r.Passes us r'
  height_eq : height us = room + 1

/-- What uses the room up does so behind tokens that are no parentheses. -/
theorem Fills.behind {r₀ : Reading} (h : Fills room r r' us) (hp : r₀.Passes front r)
    (hf : Flat front) : Fills room r₀ r' (front ++ us) where
  passes := hp.trans h.passes
  height_eq := (hf.height_append us).trans h.height_eq

/-- What uses the room up does so behind a course that fits, since that closes what it opens. -/
theorem Fills.append {r₀ : Reading} (h : Fills room r r' vs) (hu : Fits room goal r₀ (.ok e) r us) :
    Fills room r₀ r' (us ++ vs) where
  passes := hu.passes.trans h.passes
  height_eq := by
    rw [height_append_of_balanced (hu.balanced e rfl), h.height_eq]
    exact Nat.max_eq_right (Nat.le_succ_of_le hu.height_le)

/-- A course that ends at a parenthesis too many has used its room up. -/
theorem Course.full (h : Course room goal r out r')
    (hout : out = .error (.grammar (.tooDeep t))) :
    t.kind = .openParen ∧ ∃ us, Fills room r r' us := by
  induction h with
  | number _ _ _ | unreadable _ _ _ | invalid _ _ _ | unclosed _ _ _ _ _ _ _ | closed _ _ _ _ _ _
  | signed _ _ _ _ | last _ _ | leftOver _ _ _ _ | whole _ _ _ _ => cases hout
  | tooDeep ha hk =>
      cases hout
      exact ⟨hk, [t], ((Reading.Passes.shift ha (by simp [hk])).enter).report _,
        height_cons_open hk⟩
  | faultWithin ha hk _ ih =>
      obtain ⟨ht, us, hu⟩ := ih hout
      exact ⟨ht, _, (Reading.Passes.shift ha (by simp [hk])).enter.trans hu.passes,
        (height_cons_open hk).trans (congrArg (· + 1) hu.height_eq)⟩
  | unsigned _ _ _ ih | faultFirst _ _ ih | faultWhole _ ih => exact ih hout
  | faultUnderSign ha hs _ ih =>
      obtain ⟨ht, us, hu⟩ := ih hout
      exact ⟨ht, _, hu.behind (.shift ha (Kind.ne_eof_of_sign? hs))
        (.singleton (Kind.not_paren_of_sign? hs))⟩
  | faultNext ha ho _ _ ih =>
      obtain ⟨ht, us, hu⟩ := ih hout
      exact ⟨ht, _, hu.behind (.shift ha (Rank.ne_eof_of_operator? ho))
        (.singleton (Kind.not_paren_of_operator? (Rank.operator?_of_rank ho)))⟩
  | first _ hc _ _ ih =>
      obtain ⟨ht, vs, hv⟩ := ih hout
      obtain ⟨us, hu⟩ := hc.fits (by simp)
      exact ⟨ht, _, hv.append hu⟩
  | next ha ho _ hc _ _ ih =>
      obtain ⟨ht, vs, hv⟩ := ih hout
      obtain ⟨us, hu⟩ := hc.fits (by simp)
      exact ⟨ht, _, (hv.append hu).behind (.shift ha (Rank.ne_eof_of_operator? ho))
        (.singleton (Kind.not_paren_of_operator? (Rank.operator?_of_rank ho)))⟩

/-- Where a reading stops with a fault: its token comes next, or, if it is a parenthesis too many
or a number without a value, has just been taken. -/
inductive Reading.StoppedBy (r : Reading) : Reading.Fault → Prop where
  | next {f : GrammarFault} {more : List Token} : (∀ t, f ≠ .tooDeep t) →
      r.ahead = f.token :: more → StoppedBy r (.grammar f)
  | tooDeep {t : Token} {taken : List Token} : r.consumed = t :: taken →
      StoppedBy r (.grammar (.tooDeep t))
  | unreadable {t : Token} {taken : List Token} {f : ValueFault} : r.consumed = t :: taken →
      t.kind = .number → t.value = .error f → StoppedBy r (.value f)

/-- A course that ends with a fault has stopped at its token. -/
theorem Course.stopped {fault : Reading.Fault} (h : Course room goal r out r')
    (hout : out = .error fault) : r'.StoppedBy fault := by
  induction h with
  | number _ _ _ | closed _ _ _ _ _ _ | signed _ _ _ _ | last _ _ | whole _ _ _ _ => cases hout
  | unreadable ha hk hv =>
      cases hout
      exact .unreadable (Reading.consumed_shift ha) hk hv
  | tooDeep ha _ =>
      cases hout
      exact .tooDeep (Reading.consumed_shift ha)
  | invalid ha _ _ | unclosed _ _ _ ha _ _ _ | leftOver _ ha _ _ =>
      cases hout
      exact .next (by simp) ha
  | faultWithin _ _ _ ih | unsigned _ _ _ ih | faultUnderSign _ _ _ ih | faultFirst _ _ ih
  | faultNext _ _ _ _ ih | faultWhole _ ih => exact ih hout
  | first _ _ _ _ ih | next _ _ _ _ _ _ ih => exact ih hout

/-- Any fault of the grammar but a parenthesis too many leaves the reading at its token. -/
theorem Course.stops (h : Course room goal r out r') (hout : out = .error (.grammar f))
    (hf : ∀ t, f ≠ .tooDeep t) : ∃ more, r'.ahead = f.token :: more := by
  cases h.stopped hout with
  | next _ ha => exact ⟨_, ha⟩
  | tooDeep _ => exact absurd rfl (hf _)

/-! ## readings of a line under every limit -/

/-- Tokens that derive an expression are read as it before an end of the line, under the limits that
have room for them and no others. -/
theorem readTokens_append_iff (h : Derives n .addition ts e) (hl : Reading.isLine (t :: us) = true)
    (ht : t.kind = .eof) :
    readTokens limit (ts ++ t :: us) = .ok e ↔ NestsWithin limit ts := by
  rw [readTokens_eq_ok_iff (Reading.isLine_append ts hl), beforeEnd_append h.before_end ht,
    h.iff_nestsWithin]

/-- The tokens that a reading takes before it ends. -/
def Reading.taken (limit : Nat) (ts : List Token) : List Token :=
  (Reader.whole.runOn (.start limit ts)).2.consumed.reverse

/-- A course of a line from its start is its reading, and takes what the reading takes. -/
theorem Course.readTokens_eq (hl : Reading.isLine ts = true)
    (h : Course limit .whole (.start limit ts) out r') :
    readTokens limit ts = out ∧ Reading.taken limit ts = r'.consumed.reverse := by
  refine ⟨(readTokens_eq_iff hl).mpr ⟨r', h⟩, ?_⟩
  rw [Reading.taken, (Reader.runOn_whole_iff (r := .start limit ts) hl).mpr h]

/-- From the start the tokens that are consumed are those passed. -/
theorem Reading.Passes.taken_eq (h : (Reading.start limit ts).Passes us r') :
    r'.consumed.reverse = us := by
  rw [h.consumed]
  simp [Reading.start]

/-- A reading that does not end at a parenthesis too many is the same under every limit that
leaves room for the tokens taken. -/
theorem readTokens_resize (hl : Reading.isLine ts = true) (h : readTokens limit ts = out)
    (hout : ∀ t, out ≠ .error (.grammar (.tooDeep t))) :
    height (Reading.taken limit ts) ≤ limit ∧
      ∀ wider, height (Reading.taken limit ts) ≤ wider →
        readTokens wider ts = out ∧ Reading.taken wider ts = Reading.taken limit ts := by
  obtain ⟨r', hc⟩ := (readTokens_eq_iff hl).mp h
  obtain ⟨us, hu⟩ := hc.fits hout
  have htaken : Reading.taken limit ts = us :=
    (hc.readTokens_eq hl).2.trans hu.passes.taken_eq
  rw [htaken]
  refine ⟨hu.height_le, fun wider hw => ?_⟩
  obtain ⟨hread, htaken'⟩ := Course.readTokens_eq hl (hu.resize wider wider hw)
  exact ⟨hread, htaken'.trans hu.passes.taken_eq⟩

/-- A reading ends at a parenthesis too many only if it takes more than there is room for. -/
theorem readTokens_tooDeep (hl : Reading.isLine ts = true)
    (h : readTokens limit ts = .error (.grammar (.tooDeep t))) :
    t.kind = .openParen ∧ limit < ts.length := by
  obtain ⟨r', hc⟩ := (readTokens_eq_iff hl).mp h
  obtain ⟨hk, us, hu⟩ := hc.full rfl
  refine ⟨hk, ?_⟩
  have hle : us.length ≤ ts.length := by
    have : ts = us ++ r'.ahead := hu.passes.ahead
    rw [this, List.length_append]
    exact Nat.le_add_right _ _
  have := hu.height_eq
  have := height_le_opened us
  have := us.countP_le_length (p := (·.kind = .openParen))
  rw [opened] at *
  omega

/-- Where a reading ends that no limit stops: an expression takes all tokens up to the end of the
line, and a fault of the grammar all of them up to its token. -/
theorem taken_cases (hl : Reading.isLine ts = true) (hr : Readable ts)
    (hdeep : ∀ t, readTokens limit ts ≠ .error (.grammar (.tooDeep t))) :
    (∃ e, readTokens limit ts = .ok e ∧ Reading.taken limit ts = beforeEnd ts) ∨
      ∃ f more, readTokens limit ts = .error (.grammar f) ∧ (∀ t, f ≠ .tooDeep t) ∧
        ts = Reading.taken limit ts ++ f.token :: more := by
  obtain ⟨e, h⟩ | ⟨f, h⟩ := readTokens_cases limit hl hr
  all_goals
    obtain ⟨r', hc⟩ := (readTokens_eq_iff hl).mp h
    obtain ⟨us, hu⟩ := hc.exists_passes
    have hsplit : ts = us ++ r'.ahead := hu.ahead
    have htaken : Reading.taken limit ts = us := (hc.readTokens_eq hl).2.trans hu.taken_eq
  · cases hc with
    | whole _ ha hk =>
      refine .inl ⟨e, h, ?_⟩
      rw [htaken, hsplit, ha, beforeEnd_append hu.before_end hk]
  · have hf : ∀ t, f ≠ .tooDeep t := fun t ht => hdeep t (ht ▸ h)
    obtain ⟨more, ha⟩ := hc.stops rfl hf
    exact .inr ⟨f, more, h, hf, by rw [htaken, ← ha, ← hsplit]⟩

/-- Every line is nested to some depth as far as it is read when no limit stops the reading.  Under
every limit from that depth on the reading ends in the same way and at the same place, and under
every lesser one at a parenthesis that opens one level too many. -/
theorem readTokens_by_limit (hl : Reading.isLine ts = true) :
    ∃ front out, (∀ t, out ≠ .error (.grammar (.tooDeep t))) ∧
      (∀ limit, height front ≤ limit →
        readTokens limit ts = out ∧ Reading.taken limit ts = front) ∧
      ∀ limit, limit < height front →
        ∃ t, t.kind = .openParen ∧ readTokens limit ts = .error (.grammar (.tooDeep t)) := by
  -- no list of tokens opens more parentheses than it has tokens
  have hdeep : ∀ t, readTokens ts.length ts ≠ .error (.grammar (.tooDeep t)) :=
    fun t h => Nat.lt_irrefl _ (readTokens_tooDeep hl h).2
  obtain ⟨hroom, hsame⟩ := readTokens_resize hl rfl hdeep
  refine ⟨_, _, hdeep, hsame, fun limit hlt => ?_⟩
  by_cases hout : ∀ t, readTokens limit ts ≠ .error (.grammar (.tooDeep t))
  · -- a reading that does not end there is the one that no limit stops, which needs more room
    obtain ⟨hle, hsame'⟩ := readTokens_resize hl rfl hout
    have htaken := (hsame' ts.length (by omega)).2
    rw [htaken] at hlt
    exact absurd hle (Nat.not_le_of_lt hlt)
  · obtain ⟨t, ht⟩ := Classical.not_forall.mp hout
    have ht := Classical.not_not.mp ht
    exact ⟨t, (readTokens_tooDeep hl ht).1, ht⟩

end LineCalc
