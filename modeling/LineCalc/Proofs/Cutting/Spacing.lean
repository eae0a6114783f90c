import LineCalc.Proofs.Cutting.Signs

/-!
# LineCalc.Proofs.Cutting.Spacing

The blanks of a line.  A line is its tokens, each after some blanks, and blanks
at the end (`Spacing`).  Whether a number ends depends on the next two
characters alone (`goesOn_congr`), and a blank is never a part of it.  So
blanks may be put between two tokens and exchanged for others, and their loss
shows in three cases, of which one changes the token before the two
(`Merges`): `Line.tokens_respaced`.  Conversely a line made of any tokens that
can stand in a line, with blanks between neighbours, is cut into these tokens:
`Line.tokens_spacedOut`.
-/

namespace LineCalc

open Text

variable {trailingDot : Bool} {cs front rest rest' blanks number : List Char} {t u : Token}
variable {c : Char} {before parts after : List (List Char × Token)} {p : List Char × Token}

/-! ## what a number looks at -/

/-- Whether a number goes on depends on the next two characters. -/
theorem goesOn_congr (h : rest.take 2 = rest'.take 2) :
    GoesOn trailingDot number rest ↔ GoesOn trailingDot number rest' := by
  have first : ∀ cs : List Char, cs.head? = (cs.take 2).head? := by
    rintro (_ | ⟨_, _⟩) <;> rfl
  have second : ∀ cs : List Char, cs.tail.head? = (cs.take 2).tail.head? := by
    rintro (_ | ⟨_, _ | ⟨_, _⟩⟩) <;> rfl
  rw [GoesOn, GoesOn, first rest, first rest', second rest, second rest', h]

/-- A number goes on into a digit, or into its first point. -/
theorem goesOn_cons_iff : GoesOn trailingDot number (c :: rest) ↔
    isDigit c = true ∨
      '.' ∉ number ∧ c = '.' ∧ (trailingDot = true ∨ rest.head?.any isDigit = true) := by
  simp [GoesOn]

/-- A number that goes on where there are blanks later goes on without them too. -/
theorem goesOn_of_blanks (hf : front ≠ []) (hb : blanks.all isBlank = true) (hne : blanks ≠ [])
    (h : GoesOn trailingDot number (front ++ (blanks ++ rest))) :
    GoesOn trailingDot number (front ++ rest') := by
  obtain ⟨c, cs, rfl⟩ := List.exists_cons_of_ne_nil hf
  rw [List.cons_append, goesOn_cons_iff] at h ⊢
  refine h.imp_right fun ⟨hp, hpoint, hd⟩ => ⟨hp, hpoint, hd.imp_right fun hd => ?_⟩
  cases cs with
  | nil => exact absurd (.inl hd) (@not_goesOn_of_blanks trailingDot number rest blanks hb hne)
  | cons d ds => exact hd

/-- Whether a number goes on is settled by the text close to it. -/
theorem GoesOn.append (h : GoesOn trailingDot number rest) :
    GoesOn trailingDot number (rest ++ rest') := by
  cases rest with
  | nil => simp [GoesOn] at h
  | cons c cs =>
      rw [List.cons_append, goesOn_cons_iff] at *
      refine h.imp_right fun ⟨hp, hpoint, hd⟩ => ⟨hp, hpoint, hd.imp_right fun hd => ?_⟩
      cases cs with
      | nil => cases hd
      | cons d ds => exact hd

/-- Blanks at the end of a line make no number longer. -/
theorem goesOn_of_last (hb : blanks.all isBlank = true)
    (h : GoesOn trailingDot number (front ++ blanks)) :
    GoesOn trailingDot number (front ++ rest') := by
  by_cases hne : blanks = []
  · rw [hne, List.append_nil] at h
    exact h.append
  · rw [← List.append_nil blanks] at h
    cases front with
    | nil =>
        rw [List.nil_append] at h
        exact absurd h (not_goesOn_of_blanks hb hne)
    | cons c cs => exact goesOn_of_blanks (List.cons_ne_nil c cs) hb hne h

namespace Token

theorem ofFirst_eq_number_iff : Kind.ofFirst c = .number ↔ isDigit c = true := by
  refine ⟨fun h => ?_, Kind.ofFirst_of_isDigit⟩
  unfold Kind.ofFirst at h
  split at h
  · next k hk => exact absurd h (Kind.ne_of_ofChar? hk).1
  · split at h
    · assumption
    · cases h

/-- A token is a number exactly when the text it stands in front of begins with a digit. -/
theorem kind_eq_number_iff (h : u.isValid trailingDot = true) :
    u.kind = .number ↔ (u.lexeme ++ rest).head?.any isDigit = true := by
  obtain ⟨c, cs, hb⟩ := exists_begins h
  simp [hb.kind, hb.lexeme, ofFirst_eq_number_iff]

/-- A token makes a number before it longer if it is a number itself, or a point that the number can
have. -/
theorem goesOn_lexeme_iff (h : u.isValid trailingDot = true) :
    GoesOn trailingDot number (u.lexeme ++ rest) ↔ u.kind = .number ∨
      '.' ∉ number ∧ u = ⟨.error, ['.']⟩ ∧
        (trailingDot = true ∨ rest.head?.any isDigit = true) := by
  obtain ⟨c, cs, hb⟩ := exists_begins h
  rw [GoesOn, ← kind_eq_number_iff h, hb.lexeme]
  refine or_congr_right (and_congr_right fun _ => ?_)
  constructor
  · rintro ⟨hpoint, hd⟩
    obtain rfl : c = '.' := by simpa using hpoint
    have hkind : u.kind = .error := hb.kind.trans (by decide)
    obtain rfl : cs = [] := hb.alone (by simp [hkind])
    exact ⟨congrArg₂ Token.mk hkind hb.lexeme, hd⟩
  · rintro ⟨rfl, hd⟩
    cases hb.lexeme
    exact ⟨rfl, hd⟩

end Token

instance (trailingDot : Bool) (number rest : List Char) :
    Decidable (GoesOn trailingDot number rest) :=
  inferInstanceAs (Decidable (_ ∨ _ ∧ _ ∧ (_ ∨ _)))

/-! ## what the parts of a line look at -/

/-- Whether tokens are parted is settled by looking at each number among them. -/
instance decidableParted (trailingDot : Bool) :
    ∀ parts rest, Decidable (Parted trailingDot parts rest)
  | [], _ => isTrue trivial
  | (_, _) :: parts, rest =>
    have := decidableParted trailingDot parts rest
    inferInstanceAs (Decidable ((_ → _) ∧ _))

theorem spaced_append (before parts : List (List Char × Token)) :
    spaced (before ++ parts) = spaced before ++ spaced parts := by
  induction before with
  | nil => rfl
  | cons p before ih => simp [spaced, ih]

theorem lexeme_ne_nil (h : t.isValid trailingDot = true) : t.lexeme ≠ [] := by
  obtain ⟨c, cs, hb⟩ := Token.exists_begins h
  simp [hb.lexeme]

/-- Tokens are parted when those in front and those behind are. -/
theorem parted_append : Parted trailingDot (before ++ parts) rest ↔
    Parted trailingDot before (spaced parts ++ rest) ∧ Parted trailingDot parts rest := by
  induction before with
  | nil => simp [Parted]
  | cons p before ih =>
      rw [List.cons_append, Parted, Parted, ih, spaced_append, and_assoc, List.append_assoc]

/-- The parts before a text look at two characters of it. -/
theorem parted_congr (h : rest.take 2 = rest'.take 2) :
    Parted trailingDot before rest ↔ Parted trailingDot before rest' := by
  have hafter : ∀ cs : List Char, (cs ++ rest).take 2 = (cs ++ rest').take 2 := by
    intro cs
    have : rest.take (2 - cs.length) = rest'.take (2 - cs.length) := by
      have := congrArg (List.take (2 - cs.length)) h
      rwa [List.take_take, List.take_take, Nat.min_eq_left (Nat.sub_le 2 _)] at this
    rw [List.take_append, List.take_append, this]
  induction before with
  | nil => exact Iff.rfl
  | cons p before ih =>
      exact and_congr (imp_congr_right fun _ => not_congr (goesOn_congr (hafter _))) ih

/-- Blanks put in behind a number part it. -/
theorem parted_of_blanks (hf : front ≠ []) (hb : blanks.all isBlank = true) (hne : blanks ≠ [])
    (h : Parted trailingDot before (front ++ rest')) :
    Parted trailingDot before (front ++ (blanks ++ rest)) := by
  induction before with
  | nil => trivial
  | cons p before ih =>
      refine ⟨fun hk hgoes => h.1 hk ?_, ih h.2⟩
      rw [← List.append_assoc] at hgoes ⊢
      exact goesOn_of_blanks (by simp [hf]) hb hne hgoes

/-- The last tokens of a line are parted from the blanks that end it. -/
theorem parted_last (hb : blanks.all isBlank = true) (h : Parted trailingDot parts rest') :
    Parted trailingDot parts blanks := by
  induction parts with
  | nil => trivial
  | cons p parts ih => exact ⟨fun hk hgoes => h.1 hk (goesOn_of_last hb hgoes), ih h.2⟩

/-! ## a place between two parts -/

/-- What the two parts on either side of some blanks, and those before them, look at. -/
theorem parted_between : Parted trailingDot (before ++ p :: (blanks, u) :: after) rest ↔
    Parted trailingDot before
        (p.1 ++ p.2.lexeme ++ (blanks ++ (u.lexeme ++ (spaced after ++ rest)))) ∧
      (p.2.kind = .number →
        ¬ GoesOn trailingDot p.2.lexeme (blanks ++ (u.lexeme ++ (spaced after ++ rest)))) ∧
      Parted trailingDot (([], u) :: after) rest := by
  rw [parted_append]
  simp [Parted, spaced]

/-- Blanks between two tokens may become others, or come to be there. -/
theorem parted_replace {gap : List Char} (hp : p.2.isValid trailingDot = true)
    (hb : blanks.all isBlank = true) (hne : blanks ≠ [])
    (h : Parted trailingDot (before ++ p :: (gap, u) :: after) rest) :
    Parted trailingDot (before ++ p :: (blanks, u) :: after) rest := by
  rw [parted_between] at h ⊢
  obtain ⟨hbefore, -, hafter⟩ := h
  have hf : p.1 ++ p.2.lexeme ≠ [] := by simp [lexeme_ne_nil hp]
  exact ⟨parted_of_blanks hf hb hne hbefore, fun _ => not_goesOn_of_blanks hb hne, hafter⟩

/-- Two neighbours that do not stay the same without blanks between them: two numbers; a number
without a point, and a point that it can have; or a bare point, which the number in front of it
gets with the digits after it. -/
inductive Merges (trailingDot : Bool) (before : List (List Char × Token)) (p : List Char × Token)
    (u : Token) (rest : List Char) : Prop where
  | numbers : p.2.kind = .number → u.kind = .number → Merges trailingDot before p u rest
  | point : p.2.kind = .number → '.' ∉ p.2.lexeme → u = ⟨.error, ['.']⟩ →
      (trailingDot = false → rest.head?.any isDigit = true) → Merges trailingDot before p u rest
  | fraction {q : List Char × Token} : trailingDot = false → before.getLast? = some q →
      q.2.kind = .number → '.' ∉ q.2.lexeme → p = ([], ⟨.error, ['.']⟩) → u.kind = .number →
      Merges trailingDot before p u rest

/-- A number that goes on only without the blanks after a part is one before a bare point, which
digits come to follow. -/
theorem goesOn_of_delete {gap : List Char} (hp : p.2.isValid trailingDot = true)
    (hends : ¬ GoesOn trailingDot number (p.1 ++ p.2.lexeme ++ (gap ++ rest)))
    (hgoes : GoesOn trailingDot number (p.1 ++ p.2.lexeme ++ rest)) :
    trailingDot = false ∧ '.' ∉ number ∧ p = ([], ⟨.error, ['.']⟩) ∧
      rest.head?.any isDigit = true := by
  obtain ⟨blanks, t⟩ := p
  obtain ⟨d, ds, hbegins⟩ := Token.exists_begins hp
  have hlexeme : t.lexeme = d :: ds := hbegins.lexeme
  obtain ⟨c, cs, hfront⟩ : ∃ c cs, blanks ++ t.lexeme = c :: cs :=
    List.exists_cons_of_ne_nil (by simp [hlexeme])
  simp only [hfront, List.cons_append] at hends hgoes
  cases cs with
  | cons c' cs => exact absurd ((goesOn_congr rfl).mp hgoes) hends
  | nil =>
      rw [goesOn_cons_iff] at hends hgoes
      obtain hd | ⟨hpoint, rfl, hd⟩ := hgoes
      · exact absurd (.inl hd) hends
      · have hstrict : trailingDot = false := by
          by_contra hdot
          exact hends (.inr ⟨hpoint, rfl, .inl (by simpa using hdot)⟩)
        obtain ⟨rfl, hone⟩ : blanks = [] ∧ t.lexeme = ['.'] := by
          have := congrArg List.length hfront
          simp only [hlexeme, List.length_append, List.length_cons, List.length_nil] at this
          obtain rfl : blanks = [] := List.length_eq_zero_iff.mp (by omega)
          exact ⟨rfl, hfront⟩
        have hkind : t.kind = .error := by
          obtain rfl : d = '.' := (List.cons.inj (hlexeme.symm.trans hone)).1
          exact hbegins.kind.trans (by decide)
        exact ⟨hstrict, hpoint, congrArg ([], ·) (congrArg₂ Token.mk hkind hone),
          hd.resolve_left (by simp [hstrict])⟩

/-- The first two characters of a text do not depend on what is written behind it. -/
theorem take_two_append {cs : List Char} (h : 2 ≤ cs.length) :
    (cs ++ rest).take 2 = (cs ++ rest').take 2 := by
  rw [List.take_append_of_le_length h, List.take_append_of_le_length h]

/-- The parts before two neighbours still end where the blanks between these are deleted, unless the
last of them takes up what were two tokens. -/
theorem parted_before_delete {gap : List Char} (hv : ∀ q ∈ before, q.2.isValid trailingDot = true)
    (hp : p.2.isValid trailingDot = true) (hu : u.isValid trailingDot = true)
    (h : Parted trailingDot before (p.1 ++ p.2.lexeme ++ (gap ++ (u.lexeme ++ rest))))
    (hm : ¬ Merges trailingDot before p u rest) :
    Parted trailingDot before (p.1 ++ p.2.lexeme ++ (u.lexeme ++ rest)) := by
  obtain rfl | ⟨init, q, rfl⟩ := List.eq_nil_or_concat before
  · trivial
  · rw [List.concat_eq_append] at *
    rw [parted_append] at h ⊢
    obtain ⟨hinit, hq, -⟩ := h
    have hq' : q.2.isValid trailingDot = true := hv q (by simp)
    refine ⟨?_, fun hk hgoes => ?_, trivial⟩
    · have hlength : 2 ≤ (spaced [q] ++ (p.1 ++ p.2.lexeme)).length := by
        have := List.length_pos_iff.mpr (lexeme_ne_nil hp)
        have := List.length_pos_iff.mpr (lexeme_ne_nil hq')
        simp only [spaced, List.length_append]
        omega
      rw [← List.append_assoc] at hinit ⊢
      exact (parted_congr (take_two_append hlength)).mp hinit
    · obtain ⟨hstrict, hpoint, hbare, hd⟩ := goesOn_of_delete hp (hq hk) hgoes
      exact hm (.fraction hstrict (by simp) hk hpoint hbare ((Token.kind_eq_number_iff hu).mpr hd))

/-- Without the blanks between two neighbours some token is another, exactly if they merge. -/
theorem parted_delete_iff {gap : List Char} (hv : ∀ q ∈ before, q.2.isValid trailingDot = true)
    (hp : p.2.isValid trailingDot = true) (hu : u.isValid trailingDot = true)
    (h : Parted trailingDot (before ++ p :: (gap, u) :: after) rest) :
    Parted trailingDot (before ++ p :: ([], u) :: after) rest ↔
      ¬ Merges trailingDot before p u (spaced after ++ rest) := by
  rw [parted_between] at h ⊢
  obtain ⟨hbefore, -, hafter⟩ := h
  constructor
  · rintro ⟨hbefore', hends, -⟩ hmerges
    cases hmerges with
    | numbers hk hu' => exact hends hk ((Token.goesOn_lexeme_iff hu).mpr (.inl hu'))
    | point hk hpoint hbare hd =>
        refine hends hk ((Token.goesOn_lexeme_iff hu).mpr (.inr ⟨hpoint, hbare, ?_⟩))
        cases trailingDot with
        | true => exact .inl rfl
        | false => exact .inr (hd rfl)
    | @fraction q hstrict hlast hk hpoint hbare hu' =>
        obtain ⟨init, rfl⟩ := List.getLast?_eq_some_iff.mp hlast
        obtain ⟨-, hq, -⟩ := parted_append.mp hbefore'
        subst hbare
        exact hq hk (.inr ⟨hpoint, rfl, .inr ((Token.kind_eq_number_iff hu).mp hu')⟩)
  · intro hm
    refine ⟨parted_before_delete hv hp hu hbefore hm, fun hk hgoes => hm ?_, hafter⟩
    obtain hu' | ⟨hpoint, hbare, hd⟩ := (Token.goesOn_lexeme_iff hu).mp hgoes
    · exact .numbers hk hu'
    · exact .point hk hpoint hbare fun hstrict => hd.resolve_left (by simp [hstrict])

/-! ## the spacing of a line -/

/-- A line written out as its tokens, each after the blanks in front of it, and the blanks at the
end. -/
structure Spacing (trailingDot : Bool) (source : List Char) where
  parts : List (List Char × Token)
  last : List Char
  source_eq : spaced parts ++ last = source
  tokens_eq : tokensOf trailingDot source = parts.map Prod.snd ++ [.endOfLine]
  blank_parts : ∀ p ∈ parts, p.1.all isBlank = true
  blank_last : last.all isBlank = true

namespace Spacing

variable {source : List Char}

/-- Every line has a spacing. -/
theorem nonempty (trailingDot : Bool) (source : List Char) :
    Nonempty (Spacing trailingDot source) := by
  have hcuts := cuts_tokensOf trailingDot source
  generalize hts : tokensOf trailingDot source = ts at hcuts
  have written : ∃ parts last, spaced parts ++ last = source ∧
      ts = parts.map Prod.snd ++ [.endOfLine] ∧ (∀ p ∈ parts, p.1.all isBlank = true) ∧
      last.all isBlank = true := by
    clear hts
    induction hcuts with
    | @finish blanks hb => exact ⟨[], blanks, rfl, rfl, by simp, hb⟩
    | @token blanks rest t ts hb _ _ _ ih =>
        obtain ⟨parts, last, rfl, rfl, hparts, hlast⟩ := ih
        exact ⟨(blanks, t) :: parts, last, by simp [spaced], rfl,
          List.forall_mem_cons.mpr ⟨hb, hparts⟩, hlast⟩
  obtain ⟨parts, last, hsource, htokens, hparts, hlast⟩ := written
  exact ⟨⟨parts, last, hsource, hts.trans htokens, hparts, hlast⟩⟩

/-- The tokens of a spacing are tokens of a scan. -/
theorem isValid_of_mem (w : Spacing trailingDot source) (h : p ∈ w.parts) :
    p.2.isValid trailingDot = true := by
  obtain ⟨before, hbefore, hv⟩ := (cuts_tokensOf trailingDot source).exists_isValid
  rw [w.tokens_eq, List.append_cancel_right_eq] at hbefore
  exact hv _ (hbefore ▸ List.mem_map_of_mem h)

/-- A line of the same tokens with other blanks is cut alike exactly if each number ends. -/
theorem tokensOf_eq_iff (w : Spacing trailingDot source) {last : List Char}
    (ht : parts.map Prod.snd = w.parts.map Prod.snd)
    (hb : ∀ p ∈ parts, p.1.all isBlank = true) (hl : last.all isBlank = true) :
    tokensOf trailingDot (spaced parts ++ last) = tokensOf trailingDot source ↔
      Parted trailingDot parts last := by
  have hv : ∀ p ∈ parts, p.2.isValid trailingDot = true := by
    intro p hp
    have : p.2 ∈ w.parts.map Prod.snd := ht ▸ List.mem_map_of_mem hp
    obtain ⟨q, hq, hqp⟩ := List.mem_map.mp this
    exact hqp ▸ w.isValid_of_mem hq
  rw [w.tokens_eq, ← ht]
  exact tokensOf_spaced_iff hv hb hl

/-- The tokens of a spacing are parted from each other. -/
theorem parted (w : Spacing trailingDot source) : Parted trailingDot w.parts w.last :=
  (w.tokensOf_eq_iff rfl w.blank_parts w.blank_last).mp (by rw [w.source_eq])

/-- Other blanks in front of one token leave the tokens as they are exactly if each number ends. -/
theorem tokensOf_replace_iff (w : Spacing trailingDot source)
    (before : List (List Char × Token)) {gap : List Char}
    (hparts : w.parts = before ++ (gap, u) :: after) (hb : blanks.all isBlank = true) :
    tokensOf trailingDot (spaced (before ++ (blanks, u) :: after) ++ w.last) =
        tokensOf trailingDot source ↔
      Parted trailingDot (before ++ (blanks, u) :: after) w.last := by
  refine w.tokensOf_eq_iff (by simp [hparts]) (fun q hq => ?_) w.blank_last
  have hw := w.blank_parts
  rw [hparts] at hw
  rw [List.mem_append, List.mem_cons] at hq
  obtain hq | rfl | hq := hq
  · exact hw q (List.mem_append_left _ hq)
  · exact hb
  · exact hw q (List.mem_append_right _ (List.mem_cons_of_mem _ hq))

end Spacing

/-! ## blanks that are exchanged -/

/-- Every line can be written out with its blanks, and then the blanks at its end and in front of
the first token may be any or none.  Between two neighbours any blanks may come to be, or take the
place of those that are there; and the line without blanks between them has other tokens exactly if
the two merge. -/
theorem Line.tokens_respaced (s : Settings) (source : List Char) :
    Nonempty (Spacing s.trailingDot source) ∧
    ∀ w : Spacing s.trailingDot source,
      (∀ blanks : List Char, blanks.all isBlank = true →
        tokens s (spaced w.parts ++ blanks) = tokens s source) ∧
      (∀ gap t after (blanks : List Char), w.parts = (gap, t) :: after →
        blanks.all isBlank = true →
        tokens s (spaced ((blanks, t) :: after) ++ w.last) = tokens s source) ∧
      ∀ before p gap u after, w.parts = before ++ p :: (gap, u) :: after →
        (∀ blanks : List Char, blanks ≠ [] → blanks.all isBlank = true →
          tokens s (spaced (before ++ p :: (blanks, u) :: after) ++ w.last) = tokens s source) ∧
        (tokens s (spaced (before ++ p :: ([], u) :: after) ++ w.last) ≠ tokens s source ↔
          Merges s.trailingDot before p u (spaced after ++ w.last)) := by
  refine ⟨Spacing.nonempty _ _, fun w => ⟨fun blanks hb => ?_,
    fun gap t after blanks hparts hb => ?_, fun before p gap u after hparts => ?_⟩⟩
  · exact (w.tokensOf_eq_iff rfl w.blank_parts hb).mpr (parted_last hb w.parted)
  · refine (w.tokensOf_replace_iff [] hparts hb).mpr ?_
    have hw := w.parted
    rwa [hparts] at hw
  · have hw := w.parted
    rw [hparts] at hw
    have hv : ∀ q ∈ before ++ p :: (gap, u) :: after, q.2.isValid s.trailingDot = true :=
      fun q hq => w.isValid_of_mem (hparts ▸ hq)
    have hp : p.2.isValid s.trailingDot = true := hv p (by simp)
    have hu : u.isValid s.trailingDot = true := hv (gap, u) (by simp)
    have hbefore : ∀ q ∈ before, q.2.isValid s.trailingDot = true :=
      fun q hq => hv q (List.mem_append_left _ hq)
    rw [List.append_cons] at hparts
    refine ⟨fun blanks hne hb => ?_, ?_⟩
    · rw [List.append_cons]
      refine (w.tokensOf_replace_iff _ hparts hb).mpr ?_
      rw [← List.append_cons]
      exact parted_replace hp hb hne hw
    · have hnone : ([] : List Char).all isBlank = true := rfl
      have hdelete := w.tokensOf_replace_iff _ hparts hnone
      rw [← List.append_cons] at hdelete
      rw [ne_eq, show tokens s _ = tokens s source ↔ _ from hdelete,
        parted_delete_iff hbefore hp hu hw, not_not]

/-- Numbers that have to have digits after a point. -/
def Settings.noTrailingDot : Settings := { standard with allowTrailingDot := .bool false }

/-- A number, a bare point right after it, and a number after a blank. -/
def fractionParts : List (List Char × Token) :=
  [([], ⟨.number, ['5']⟩), ([], ⟨.error, ['.']⟩), ([' '], ⟨.number, ['3']⟩)]

/-- The spacing of `5. 3` under the setting that takes no trailing point. -/
def detachedFraction : Spacing Settings.noTrailingDot.trailingDot "5. 3".toList where
  parts := fractionParts
  last := []
  source_eq := rfl
  tokens_eq :=
    show tokensOf false (spaced fractionParts ++ []) = _ from
      (tokensOf_spaced_iff (by decide) (by decide) rfl).mpr (by decide)
  blank_parts := by decide
  blank_last := rfl

/-- The blank after the bare point keeps it from the number before it, which is not its neighbour
there. -/
theorem Line.tokens_detachedFraction :
    tokens .noTrailingDot "5.3".toList ≠ tokens .noTrailingDot "5. 3".toList ∧
      tokens .noTrailingDot "5 . 3".toList = tokens .noTrailingDot "5. 3".toList := by
  have hblanks := (tokens_respaced .noTrailingDot "5. 3".toList).2 detachedFraction
  obtain ⟨hinsert, -⟩ := hblanks.2.2 [] ([], ⟨.number, ['5']⟩) [] ⟨.error, ['.']⟩
    [([' '], ⟨.number, ['3']⟩)] rfl
  obtain ⟨-, hdelete⟩ := hblanks.2.2 [([], ⟨.number, ['5']⟩)] ([], ⟨.error, ['.']⟩) [' ']
    ⟨.number, ['3']⟩ [] rfl
  exact ⟨hdelete.mpr (.fraction rfl rfl rfl (by decide) rfl rfl),
    hinsert [' '] (by simp) (by decide)⟩

/-! ## tokens spaced out -/

/-- The tokens of lines before their end: signs with a kind of their own, numbers, and any other
characters. -/
inductive Token.Lexical (trailingDot : Bool) : Token → Prop
  | sign {c : Char} {k : Kind} : Kind.ofChar? c = some k → Lexical trailingDot ⟨k, [c]⟩
  | number {cs : List Char} : Pointed trailingDot isDigit cs → Lexical trailingDot ⟨.number, cs⟩
  | stray {c : Char} : isBlank c = false → isDigit c = false → Kind.ofChar? c = none →
      Lexical trailingDot ⟨.error, [c]⟩

/-- A token of one of the lexical forms is a token that a scan can give. -/
theorem Token.lexical_iff_isValid : t.Lexical trailingDot ↔ t.isValid trailingDot = true := by
  constructor
  · rintro (hk | hn | ⟨hb, hd, hk⟩)
    · exact (Cursor.isValid_of_ofChar? hk).1
    · exact isNumber_of_pointed hn
    · simp [isValid, isStray, hb, hd, hk]
  · intro h
    obtain ⟨k, lexeme⟩ := t
    cases k with
    | number => exact .number (pointed_of_isNumber h)
    | error =>
        simp only [isValid] at h
        split at h
        · next c =>
          simp only [isStray, Bool.and_eq_true, Bool.not_eq_true', Option.isNone_iff_eq_none] at h
          exact .stray h.1.1 h.1.2 h.2
        · cases h
    | eof => cases h
    | _ =>
        rw [show lexeme = _ from of_decide_eq_true h]
        exact .sign rfl

/-- Blanks in front of tokens and at the end, of which there are some between neighbours. -/
structure SpacedOut (parts : List (List Char × Token)) (last : List Char) : Prop where
  blank_parts : ∀ p ∈ parts, p.1.all isBlank = true
  blank_last : last.all isBlank = true
  between : ∀ p ∈ parts.tail, p.1 ≠ []

/-- In a line that is spaced out no number runs into the token after it. -/
theorem SpacedOut.isChain {last : List Char} (h : SpacedOut parts last) : parts.IsChain Apart := by
  obtain ⟨-, -, h⟩ := h
  induction parts with
  | nil => exact .nil
  | cons p parts ih =>
      refine (ih fun q hq => h q (List.mem_of_mem_tail hq)).cons fun q hq _ hnone => ?_
      exact absurd hnone (h q (List.mem_of_mem_head? hq))

/-- A line made of tokens, with blanks between neighbours, is cut into these tokens, whichever they
are.  The tokens of every line are such tokens, so they are the tokens of each line that is made of
them with blanks between neighbours. -/
theorem Line.tokens_spacedOut (s : Settings) :
    (∀ parts last, SpacedOut parts last → (∀ p ∈ parts, p.2.Lexical s.trailingDot) →
      tokens s (spaced parts ++ last) = parts.map Prod.snd ++ [.endOfLine]) ∧
    ∀ source, ∃ before, tokens s source = before ++ [.endOfLine] ∧
      (∀ t ∈ before, t.Lexical s.trailingDot) ∧
      ∀ parts last, SpacedOut parts last → parts.map Prod.snd = before →
        tokens s (spaced parts ++ last) = tokens s source := by
  have written : ∀ parts last, SpacedOut parts last →
      (∀ p ∈ parts, p.2.Lexical s.trailingDot) →
      tokens s (spaced parts ++ last) = parts.map Prod.snd ++ [.endOfLine] :=
    fun parts last h hv =>
      tokensOf_spaced h.isChain (fun p hp => Token.lexical_iff_isValid.mp (hv p hp))
        h.blank_parts h.blank_last
  refine ⟨written, fun source => ?_⟩
  obtain ⟨before, hbefore, hv⟩ := (cuts_tokensOf s.trailingDot source).exists_isValid
  refine ⟨before, hbefore, fun t ht => Token.lexical_iff_isValid.mpr (hv t ht), ?_⟩
  rintro parts last h rfl
  rw [written parts last h fun p hp =>
    Token.lexical_iff_isValid.mpr (hv _ (List.mem_map_of_mem hp))]
  exact hbefore.symm

end LineCalc
