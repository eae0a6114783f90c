import LineCalc.Proofs.CommandLine.FrontEnds

/-!
# LineCalc.Proofs.CommandLine.Delivery

How an expression gets from the command line to its evaluation.  Two levels
sort the arguments, and neither of them takes the expression for a switch:
with a sign in front of it, it is an operand to one level or unknown to it,
and an unknown argument comes back as what is left over.  Either way the
switches on both sides are on, and the expression is the one that was given:
`evaluates_expression`.
-/

namespace LineCalc.CommandLine

variable {level : Level} {switches before after : List Switch} {s : Switch} {use : Use}
variable {e : List Char} {rest : List (List Char)} {words : List (List Char × Word)} {vacant : Bool}

/-- A switch as an argument. -/
def Switch.argument (s : Switch) : List Char := s.name.toList

/-- The switches of the command `eval`, but for the one that asks for help. -/
def evalSwitches : List Switch := [.json, .tokens, .tree, .strict, .noTrailingDot]

/-- Whether a text can be an argument as it is.  After a hyphen no name of a switch may begin. -/
def isPlain : List Char → Bool
  | '-' :: c :: _ => c ≠ '-' && c ≠ 'h'
  | _ => true

/-! ## sorting -/

namespace Level

theorem ofLetter?_eq_none (level : Level) {c : Char} (hc : c ≠ 'h') : level.ofLetter? c = none := by
  rw [ofLetter?, List.find?_eq_none]
  intro s _
  cases s <;> simp [Switch.letter?, hc.symm]

theorem hyphenWord_cases (cs : List Char) :
    hyphenWord cs = .operand ∨ hyphenWord cs = .unknown := by
  rw [hyphenWord]
  split
  · exact .inl rfl
  · exact .inr rfl

/-- A plain text is no switch on any level. -/
theorem classify_of_isPlain (level : Level) (h : isPlain e = true) :
    level.classify e = .ok .operand ∨ level.classify e = .ok .unknown := by
  unfold classify
  split
  · simp [isPlain] at h
  · simp [isPlain] at h
  · next c text _ _ =>
    have hc : c ≠ '-' ∧ c ≠ 'h' := by simpa [isPlain] using h
    rw [ofLetter?_eq_none level hc.2]
    exact (hyphenWord_cases _).imp (congrArg Except.ok) (congrArg Except.ok)
  · exact .inl rfl

theorem words_cons {cs : List Char} {w : Word} (hc : level.classify cs = .ok w)
    (hw : w ≠ .terminator) (hr : level.words rest = .ok words) :
    level.words (cs :: rest) = .ok ((cs, w) :: words) := by
  rw [Level.words, hc]
  cases w with
  | terminator => exact absurd rfl hw
  | operand | long _ _ | short _ _ | unknown =>
      show (level.words rest >>= fun words => pure ((cs, _) :: words)) = _
      rw [hr]
      rfl

/-- Arguments of one form, other than a terminator, in front of others. -/
theorem words_map_append {form : Switch → Word}
    (h : ∀ s ∈ switches, level.classify s.argument = .ok (form s) ∧ form s ≠ .terminator)
    (hr : level.words rest = .ok words) :
    level.words (switches.map Switch.argument ++ rest) =
      .ok (switches.map (fun s => (s.argument, form s)) ++ words) := by
  induction switches with
  | nil => exact hr
  | cons s switches ih =>
      obtain ⟨⟨hs, hne⟩, hswitches⟩ := List.forall_mem_cons.mp h
      exact words_cons hs hne (ih hswitches)

/-- A plain text among switches is an operand or unknown. -/
theorem words_plain {form : Switch → Word}
    (hform : ∀ s ∈ evalSwitches, level.classify s.argument = .ok (form s) ∧ form s ≠ .terminator)
    (hb : ∀ s ∈ before, s ∈ evalSwitches) (ha : ∀ s ∈ after, s ∈ evalSwitches)
    (he : isPlain e = true) :
    ∃ w, (w = .operand ∨ w = .unknown) ∧
      level.words (before.map Switch.argument ++ e :: after.map Switch.argument) =
        .ok (before.map (fun s => (s.argument, form s)) ++
          (e, w) :: after.map (fun s => (s.argument, form s))) := by
  have hafter : level.words (after.map Switch.argument) =
      .ok (after.map fun s => (s.argument, form s)) := by
    have hnil : level.words [] = .ok [] := rfl
    simpa using words_map_append (fun s hs => hform s (ha s hs)) hnil
  obtain ⟨w, hw, hclass⟩ : ∃ w, (w = .operand ∨ w = .unknown) ∧ level.classify e = .ok w := by
    obtain h | h := classify_of_isPlain level he
    · exact ⟨_, .inl rfl, h⟩
    · exact ⟨_, .inr rfl, h⟩
  have hne : w ≠ .terminator := by obtain rfl | rfl := hw <;> nofun
  exact ⟨w, hw, words_map_append (fun s hs => hform s (hb s hs)) (words_cons hclass hne hafter)⟩

/-- After a terminator any text is an operand. -/
theorem words_terminated {form : Switch → Word}
    (hform : ∀ s ∈ evalSwitches, level.classify s.argument = .ok (form s) ∧ form s ≠ .terminator)
    (hb : ∀ s ∈ before, s ∈ evalSwitches) (e : List Char) :
    level.words (before.map Switch.argument ++ [['-', '-'], e]) =
      .ok (before.map (fun s => (s.argument, form s)) ++
        [(['-', '-'], .terminator), (e, .operand)]) :=
  words_map_append (fun s hs => hform s (hb s hs)) rfl

end Level

/-- The upper level does not know the switches of `eval`. -/
theorem classify_topLevel {s : Switch} (h : s ∈ evalSwitches) :
    topLevel.classify s.argument = .ok .unknown ∧ Word.unknown ≠ .terminator := by
  refine ⟨?_, nofun⟩
  simp only [evalSwitches, List.mem_cons, List.not_mem_nil, or_false] at h
  obtain rfl | rfl | rfl | rfl | rfl := h <;> rfl

/-- The level of `eval` knows each of its switches by its full name. -/
theorem classify_evalLevel {s : Switch} (h : s ∈ evalSwitches) :
    CommandName.eval.level.classify s.argument = .ok (.long s none) ∧
      Word.long s none ≠ .terminator := by
  refine ⟨?_, nofun⟩
  simp only [evalSwitches, List.mem_cons, List.not_mem_nil, or_false] at h
  obtain rfl | rfl | rfl | rfl | rfl := h <;> rfl

theorem ne_help (h : s ∈ evalSwitches) : s ≠ .help := by
  rintro rfl
  simp [evalSwitches] at h

/-! ## use -/

/-- An expression is all the text that arguments amount to, be it the operand or left over. -/
def Use.IsOf (use : Use) (e : List Char) : Prop :=
  use.operand = some e ∧ use.leftOver = [] ∨ use.operand = none ∧ use.leftOver = [e]

namespace Level

theorem useWord_long (hs : s ≠ .help) (cs : List Char) (use : Use) :
    level.useWord cs (.long s none) use = .ok { use with switches := use.switches ++ [s] } := by
  have hon : switchOn s = .ok () := if_neg hs
  show ((switchOn s >>= fun _ => pure ()) >>= fun _ => pure _) = _
  rw [hon, List.append_nil]
  rfl

theorem useWord_unknown (cs : List Char) (use : Use) :
    level.useWord cs .unknown use = .ok { use with leftOver := use.leftOver ++ [cs] } := by
  show Except.ok { use with switches := use.switches ++ [], leftOver := use.leftOver ++ [cs] } = _
  rw [List.append_nil]

/-- The words are used one after another. -/
theorem useWords_of_useWord {cs : List Char} {w : Word} {use' : Use}
    (hu : level.useWord cs w use = .ok use') (ho : w ≠ .operand) (ht : w ≠ .terminator) :
    level.useWords vacant use ((cs, w) :: words) = level.useWords vacant use' words := by
  rw [useWords, hu]
  · rfl
  · exact ho
  · exact ht

/-- The first operand fills the place for it, if no terminator comes directly after it. -/
theorem useWords_operand (h : ∀ p ∈ words.head?, p.2 ≠ .terminator) (e : List Char) (use : Use) :
    level.useWords true use ((e, .operand) :: words) =
      level.useWords false { use with operand := some e } words := by
  rw [useWords, if_pos rfl]
  split
  · simp at h
  · rfl

/-- Switches other than help are switched on, wherever they are. -/
theorem useWords_switches (h : ∀ s ∈ switches, s ≠ .help) (vacant : Bool) (use : Use)
    (words : List (List Char × Word)) :
    level.useWords vacant use (switches.map (fun s => (s.argument, Word.long s none)) ++ words) =
      level.useWords vacant { use with switches := use.switches ++ switches } words := by
  induction switches generalizing use with
  | nil => simp
  | cons s switches ih =>
      obtain ⟨hs, hswitches⟩ := List.forall_mem_cons.mp h
      rw [List.map_cons, List.cons_append,
        useWords_of_useWord (useWord_long hs _ use) nofun nofun, ih hswitches]
      simp

/-- A plain text among switches is the operand or what is left over, and the switches on both
sides are on. -/
theorem useWords_plain {w : Word} (hw : w = .operand ∨ w = .unknown) (h : ∀ s ∈ switches, s ≠ .help)
    (on : List Switch) :
    ∃ use : Use, level.useWords true ⟨on, none, []⟩
        ((e, w) :: switches.map (fun s => (s.argument, Word.long s none))) = .ok use ∧
      use.switches = on ++ switches ∧ use.IsOf e := by
  have hmore : ∀ vacant (use : Use),
      level.useWords vacant use (switches.map fun s => (s.argument, Word.long s none)) =
        level.useWords vacant { use with switches := use.switches ++ switches } [] := by
    intro vacant use
    simpa using useWords_switches h vacant use []
  obtain rfl | rfl := hw
  · refine ⟨⟨on ++ switches, some e, []⟩, ?_, rfl, .inl ⟨rfl, rfl⟩⟩
    rw [useWords_operand (by cases switches <;> simp), hmore, useWords]
  · refine ⟨⟨on ++ switches, none, [e]⟩, ?_, rfl, .inr ⟨rfl, rfl⟩⟩
    rw [useWords_of_useWord (useWord_unknown e _) nofun nofun, hmore, useWords]
    rfl

end Level

/-! ## the two levels -/

/-- The name of a command ends what the upper level puts to use. -/
theorem split_eval (h : topLevel.words rest = .ok words) :
    Invocation.split (CommandName.eval.label.toList :: rest) =
      .ok (⟨[], none, []⟩, CommandName.eval.label.toList, words.map Prod.fst) := by
  have hname : topLevel.classify CommandName.eval.label.toList = .ok .operand := rfl
  rw [Invocation.split, Level.words_cons hname nofun h]
  rfl

/-- What the level of `eval` makes of the arguments behind the name is what the program runs. -/
theorem ofArguments_of_read (h : topLevel.words rest = .ok words)
    (hrest : words.map Prod.fst = rest) (hread : CommandName.eval.level.read rest = .ok use)
    (he : use.IsOf e) :
    Invocation.ofArguments (CommandName.eval.label.toList :: rest) =
      .ok ⟨false, .eval (.ofSwitches use.switches) e⟩ := by
  have huse : Command.ofUse ([] ++ use.leftOver) use .eval =
      .ok (.eval (.ofSwitches use.switches) e, []) := by
    obtain ⟨ho, hl⟩ | ⟨ho, hl⟩ := he <;> simp [Command.ofUse, ho, hl]
  have hname : CommandName.ofText? CommandName.eval.label.toList = some .eval := rfl
  rw [Invocation.ofArguments, split_eval h, hrest]
  simp only [bind, Except.bind, hname, hread, List.nil_append] at huse ⊢
  rw [huse]
  rfl

/-- The program evaluates an expression with the given switches on and the others off. -/
structure Evaluates (args : List (List Char)) (switches : List Switch) (e : List Char) : Prop where
  invocation : Invocation.ofArguments args = .ok ⟨false, .eval (.ofSwitches switches) e⟩
  ending : ∀ world, program world args = .run (runEval (.ofSwitches switches) e)

theorem evaluates_of_read (h : topLevel.words rest = .ok words) (hrest : words.map Prod.fst = rest)
    (hread : CommandName.eval.level.read rest = .ok use) (he : use.IsOf e) :
    Evaluates (CommandName.eval.label.toList :: rest) use.switches e :=
  have hargs := ofArguments_of_read h hrest hread he
  ⟨hargs, fun _ => program_of_eval hargs⟩

/-- A plain expression may stand anywhere among the switches. -/
theorem evaluates_plain (hb : ∀ s ∈ before, s ∈ evalSwitches) (ha : ∀ s ∈ after, s ∈ evalSwitches)
    (he : isPlain e = true) :
    Evaluates (CommandName.eval.label.toList ::
      (before.map Switch.argument ++ e :: after.map Switch.argument)) (before ++ after) e := by
  obtain ⟨w, -, htop⟩ := Level.words_plain (fun s => classify_topLevel) hb ha he
  obtain ⟨w', hw', heval⟩ := Level.words_plain (fun s => classify_evalLevel) hb ha he
  obtain ⟨use, huse, hswitches, hof⟩ :=
    Level.useWords_plain hw' (fun s hs => ne_help (ha s hs)) before
  have hread : CommandName.eval.level.read
      (before.map Switch.argument ++ e :: after.map Switch.argument) = .ok use := by
    rw [Level.read, heval]
    exact (Level.useWords_switches (fun s hs => ne_help (hb s hs)) true _ _).trans huse
  rw [← hswitches]
  exact evaluates_of_read htop (by simp [Function.comp_def]) hread hof

/-- Behind `--` any expression may stand. -/
theorem evaluates_terminated (hb : ∀ s ∈ before, s ∈ evalSwitches) (e : List Char) :
    Evaluates (CommandName.eval.label.toList :: (before.map Switch.argument ++ [['-', '-'], e]))
      before e := by
  have htop := Level.words_terminated (fun s => classify_topLevel) hb e
  have heval := Level.words_terminated (fun s => classify_evalLevel) hb e
  have hread : CommandName.eval.level.read (before.map Switch.argument ++ [['-', '-'], e]) =
      .ok ⟨before, some e, []⟩ := by
    rw [Level.read, heval]
    exact Level.useWords_switches (fun s hs => ne_help (hb s hs)) true _ _
  exact evaluates_of_read htop (by simp [Function.comp_def]) hread (.inl ⟨rfl, rfl⟩)

/-- Whatever switches of an evaluation are around it, any number of times and in any order, a text
that begins no name of a switch is the expression that the program evaluates, with just these
switches on; and after a terminator any text is. -/
theorem evaluates_expression (hb : ∀ s ∈ before, s ∈ evalSwitches)
    (ha : ∀ s ∈ after, s ∈ evalSwitches) (e : List Char) :
    (isPlain e = true → Evaluates (CommandName.eval.label.toList ::
      (before.map Switch.argument ++ e :: after.map Switch.argument)) (before ++ after) e) ∧
    Evaluates (CommandName.eval.label.toList :: (before.map Switch.argument ++ [['-', '-'], e]))
      before e :=
  ⟨evaluates_plain hb ha, evaluates_terminated hb e⟩

/-- A sign in front of an expression among switches, and one that looks like a switch. -/
theorem evaluates_signed :
    (∀ s ∈ [Switch.tree, .tree], s ∈ evalSwitches) ∧ (∀ s ∈ [Switch.strict], s ∈ evalSwitches) ∧
      isPlain "-5/(2-2)".toList = true ∧
      Evaluates (["eval", "--tree", "--tree", "-5/(2-2)", "--strict"].map String.toList)
        [.tree, .tree, .strict] "-5/(2-2)".toList ∧
      Evaluates (["eval", "--strict", "--", "--5"].map String.toList) [.strict] "--5".toList := by
  have hb : ∀ s ∈ [Switch.tree, .tree], s ∈ evalSwitches := by decide
  have ha : ∀ s ∈ [Switch.strict], s ∈ evalSwitches := by decide
  have hplain : isPlain "-5/(2-2)".toList = true := by decide
  exact ⟨hb, ha, hplain, (evaluates_expression hb ha _).1 hplain,
    (evaluates_expression ha ha "--5".toList).2⟩

end LineCalc.CommandLine
