import LineCalc.CommandLine.Invocation
import LineCalc.Proofs.Results
import Mathlib.Data.List.Forall2

/-!
# LineCalc.Proofs.CommandLine.Sorting

What the levels of a command line make of the arguments.  On each level every
argument has a role, and those left over are just the ones that are neither
switches nor the operand nor its separator: `Level.Accounts`.  Both levels
together sort the arguments (`Invocation.sort`) before anything is made of
them, and no argument is lost on the way: `Invocation.accounts_of_sort`.
-/

namespace LineCalc.CommandLine

/-! ## roles -/

/-- What an argument is to a level. -/
inductive Role where
  | switches
  | operand
  /-- A terminator that sets the operand apart. -/
  | separator
  | leftOver
  deriving DecidableEq

/-- The arguments in a role. -/
def taken (role : Role) (marks : List (List Char × Role)) : List (List Char) :=
  (marks.filter (·.2 = role)).map Prod.fst

@[simp] theorem taken_nil (role : Role) : taken role [] = [] := rfl

@[simp] theorem taken_cons (role : Role) (p : List Char × Role) (marks : List (List Char × Role)) :
    taken role (p :: marks) = if p.2 = role then p.1 :: taken role marks else taken role marks := by
  by_cases h : p.2 = role <;> simp [taken, h]

/-- Arguments that are all left over. -/
def allLeftOver (args : List (List Char)) : List (List Char × Role) := args.map (·, .leftOver)

@[simp] theorem map_fst_allLeftOver (args : List (List Char)) :
    (allLeftOver args).map Prod.fst = args := by
  simp [allLeftOver, Function.comp_def]

@[simp] theorem taken_separator_allLeftOver (args : List (List Char)) :
    taken .separator (allLeftOver args) = [] := by
  simp [taken, allLeftOver]

variable {level : Level} {start use use' : Use} {marks : List (List Char × Role)}
variable {cs name : List Char} {args rest : List (List Char)} {switches : List Switch}
variable {w : Word} {words : List (List Char × Word)} {vacant : Bool}

namespace Level

/-- An argument is the given switches of a level and nothing else. -/
def IsSwitches (level : Level) (cs : List Char) (switches : List Switch) : Prop :=
  ∃ w, level.classify cs = .ok w ∧ level.wordSwitches cs w = .ok (switches, [])

/-- The roles of arguments account for their use.  The switches are on that the arguments in this
role stand for; the operand and what is left over are the arguments in these roles.  Only a level
with a place for an operand has one, and at most one separator with it. -/
structure Accounts (level : Level) (start : Use) (marks : List (List Char × Role)) (use : Use) :
    Prop where
  switches : ∃ lists, List.Forall₂ level.IsSwitches (taken .switches marks) lists ∧
    use.switches = start.switches ++ lists.flatten
  operand : use.operand.toList = start.operand.toList ++ taken .operand marks
  leftOver : use.leftOver = start.leftOver ++ taken .leftOver marks
  separator : taken .separator marks = [] ∨ taken .separator marks = [['-', '-']]
  place : level.takesOperand = false → ∀ p ∈ marks, p.2 = .switches ∨ p.2 = .leftOver

namespace Accounts

theorem nil (level : Level) (use : Use) : level.Accounts use [] use :=
  ⟨⟨[], .nil, by simp⟩, by simp, by simp, .inl rfl, by simp⟩

theorem cons_switches (hs : level.IsSwitches cs switches)
    (h : level.Accounts { start with switches := start.switches ++ switches } marks use) :
    level.Accounts start ((cs, .switches) :: marks) use := by
  obtain ⟨lists, hlists, hon⟩ := h.switches
  refine ⟨⟨switches :: lists, by simpa using ⟨hs, hlists⟩, by simpa using hon⟩,
    by simpa using h.operand, by simpa using h.leftOver, by simpa using h.separator, fun hp => ?_⟩
  exact List.forall_mem_cons.mpr ⟨.inl rfl, h.place hp⟩

/-- An argument left over is accounted for by its mark. -/
theorem cons_leftOver
    (h : level.Accounts { start with leftOver := start.leftOver ++ [cs] } marks use) :
    level.Accounts start ((cs, .leftOver) :: marks) use := by
  refine ⟨by simpa using h.switches, by simpa using h.operand, by simpa using h.leftOver,
    by simpa using h.separator, fun hp => ?_⟩
  exact List.forall_mem_cons.mpr ⟨.inr rfl, h.place hp⟩

/-- The operand is accounted for where the level takes one and has none. -/
theorem cons_operand (hp : level.takesOperand = true) (ho : start.operand = none)
    (h : level.Accounts { start with operand := some cs } marks use) :
    level.Accounts start ((cs, .operand) :: marks) use :=
  ⟨by simpa using h.switches, by simpa [ho] using h.operand, by simpa using h.leftOver,
    by simpa using h.separator, by simp [hp]⟩

/-- One separator is accounted for, in front of the operand. -/
theorem cons_separator (hp : level.takesOperand = true) (hs : taken .separator marks = [])
    (h : level.Accounts start marks use) :
    level.Accounts start ((['-', '-'], .separator) :: marks) use :=
  ⟨by simpa using h.switches, by simpa using h.operand, by simpa using h.leftOver,
    by simp [hs], by simp [hp]⟩

theorem allLeftOver (level : Level) (start : Use) (args : List (List Char)) :
    level.Accounts start (allLeftOver args)
      { start with leftOver := start.leftOver ++ args } := by
  induction args generalizing start with
  | nil => simpa [CommandLine.allLeftOver] using nil level start
  | cons cs args ih =>
      have h := ih { start with leftOver := start.leftOver ++ [cs] }
      rw [List.append_assoc] at h
      exact h.cons_leftOver

end Accounts

/-! ## words -/

theorem hyphenWord_ne_terminator (cs : List Char) : hyphenWord cs ≠ .terminator := by
  rw [hyphenWord]
  split <;> nofun

theorem longWord_ne_terminator (h : level.longWord cs = .ok (some w)) : w ≠ .terminator := by
  simp only [longWord] at h
  repeat' split at h
  all_goals cases h <;> nofun

/-- Only `--` ends the options. -/
theorem eq_of_classify_terminator (h : level.classify cs = .ok .terminator) : cs = ['-', '-'] := by
  unfold classify at h
  split at h
  · rfl
  · obtain ⟨found, hfound, hw⟩ := bind_eq_ok_iff.mp h
    cases found with
    | none => exact absurd (Except.ok.inj hw) (hyphenWord_ne_terminator _)
    | some w => exact absurd (Except.ok.inj hw) (longWord_ne_terminator hfound)
  · split at h
    · cases h
    · exact absurd (Except.ok.inj h) (hyphenWord_ne_terminator _)
  · cases h

/-- After a terminator all arguments are operands; any other argument has its own form, and those
after it their words. -/
theorem words_cons_cases (h : level.words (cs :: args) = .ok words) :
    level.classify cs = .ok .terminator ∧ words = (cs, .terminator) :: args.map (·, .operand) ∨
      ∃ w more, level.classify cs = .ok w ∧ w ≠ .terminator ∧ level.words args = .ok more ∧
        words = (cs, w) :: more := by
  obtain ⟨w, hw, h⟩ := bind_eq_ok_iff.mp (h : (level.classify cs >>= _) = _)
  cases w with
  | terminator =>
      cases h
      exact .inl ⟨hw, rfl⟩
  | operand | long _ _ | short _ _ | unknown =>
      obtain ⟨more, hmore, h⟩ := bind_eq_ok_iff.mp h
      cases h
      exact .inr ⟨_, more, hw, nofun, hmore, rfl⟩

/-- The words are the arguments in order, each with its own form, or operands. -/
theorem map_fst_words (h : level.words args = .ok words) :
    words.map Prod.fst = args ∧ ∀ p ∈ words, p.2 = .operand ∨ level.classify p.1 = .ok p.2 := by
  induction args generalizing words with
  | nil =>
      cases h
      exact ⟨rfl, by simp⟩
  | cons cs args ih =>
      obtain ⟨hw, rfl⟩ | ⟨w, more, hw, -, hmore, rfl⟩ := words_cons_cases h
      · exact ⟨by simp [Function.comp_def], by simp [hw]⟩
      · obtain ⟨hfst, hforms⟩ := ih hmore
        exact ⟨congrArg (cs :: ·) hfst, List.forall_mem_cons.mpr ⟨.inr hw, hforms⟩⟩

/-- A word on its own is switches, or it is left over. -/
theorem useWord_cases (h : level.useWord cs w start = .ok use) :
    (∃ switches, level.wordSwitches cs w = .ok (switches, []) ∧
      use = { start with switches := start.switches ++ switches }) ∨
    use = { start with leftOver := start.leftOver ++ [cs] } := by
  obtain ⟨⟨switches, leftOver⟩, hw, h⟩ := bind_eq_ok_iff.mp h
  obtain ⟨_, -, h⟩ := bind_eq_ok_iff.mp h
  cases h
  cases w with
  | operand | terminator | unknown =>
      cases hw
      exact .inr (by rw [List.append_nil])
  | long s text =>
      cases text with
      | none =>
          cases hw
          exact .inl ⟨[s], rfl, by rw [List.append_nil]⟩
      | some text => cases hw
  | short s text =>
      obtain ⟨found, -, hfound⟩ := bind_eq_ok_iff.mp (hw : (level.shortSwitches s text >>= _) = _)
      cases hfound
      exact .inl ⟨_, hw, by rw [List.append_nil]⟩

theorem operand_of_useWord (h : level.useWord cs w start = .ok use) :
    use.operand = start.operand := by
  obtain ⟨_, -, rfl⟩ | rfl := useWord_cases h <;> rfl

/-- A word on its own has a role, before others that have. -/
theorem exists_accounts_cons (hw : level.useWord cs w start = .ok use)
    (hc : w = .operand ∨ level.classify cs = .ok w) (hne : w ≠ .operand)
    (h : level.Accounts use marks use') :
    ∃ role, level.Accounts start ((cs, role) :: marks) use' := by
  obtain ⟨switches, hswitches, rfl⟩ | rfl := useWord_cases hw
  · exact ⟨.switches, h.cons_switches ⟨w, hc.resolve_left hne, hswitches⟩⟩
  · exact ⟨.leftOver, h.cons_leftOver⟩

/-! ## the words of a level -/

/-- The place for an operand is vacant only on a level that has one, and before it is filled. -/
def Vacates (level : Level) (vacant : Bool) (use : Use) : Prop :=
  vacant = true → level.takesOperand = true ∧ use.operand = none

theorem vacates_false (level : Level) (use : Use) : level.Vacates false use := by simp [Vacates]

/-- Words with the terminator in the first place. -/
theorem exists_accounts_terminator (hv : level.Vacates vacant start)
    (h : level.useWords vacant start ((['-', '-'], .terminator) :: words) = .ok use) :
    ∃ marks, marks.map Prod.fst = ['-', '-'] :: words.map Prod.fst ∧
      level.Accounts start marks use := by
  cases vacant with
  | false =>
      cases h
      exact ⟨CommandLine.allLeftOver (['-', '-'] :: words.map Prod.fst), by simp,
        .allLeftOver level start _⟩
  | true =>
      obtain ⟨hp, ho⟩ := hv rfl
      cases words with
      | nil =>
          cases h
          exact ⟨[(['-', '-'], .separator)], rfl, .cons_separator hp rfl (.nil level start)⟩
      | cons p words =>
          cases h
          refine ⟨(['-', '-'], .separator) :: (p.1, .operand) ::
            CommandLine.allLeftOver (words.map Prod.fst), by simp, ?_⟩
          exact .cons_separator hp (by simp) (.cons_operand hp ho (.allLeftOver level _ _))

/-- Words that are put to use have roles that account for it. -/
theorem exists_accounts_useWords (hv : level.Vacates vacant start)
    (hwords : ∀ p ∈ words, p.2 = .operand ∨ level.classify p.1 = .ok p.2)
    (h : level.useWords vacant start words = .ok use) :
    ∃ marks, marks.map Prod.fst = words.map Prod.fst ∧ level.Accounts start marks use := by
  induction words generalizing vacant start with
  | nil =>
      rw [useWords] at h
      cases h
      exact ⟨[], rfl, .nil level _⟩
  | cons p words ih =>
      obtain ⟨cs, w⟩ := p
      obtain ⟨hw, hmore⟩ := List.forall_mem_cons.mp hwords
      cases w with
      | operand =>
          rw [useWords] at h
          split at h
          · next hvacant =>
            obtain ⟨hp, ho⟩ := hv hvacant
            split at h
            · next separator more =>
              obtain rfl : separator = ['-', '-'] :=
                eq_of_classify_terminator ((hmore _ List.mem_cons_self).resolve_left nofun)
              cases h
              -- a terminator directly after the operand goes with it, and ends the walk
              refine ⟨(cs, .operand) :: (['-', '-'], .separator) ::
                CommandLine.allLeftOver (more.map Prod.fst), by simp, ?_⟩
              exact .cons_operand hp ho (.cons_separator hp (by simp) (.allLeftOver level _ _))
            · obtain ⟨marks, hmarks, haccounts⟩ := ih (vacates_false level _) hmore h
              exact ⟨(cs, .operand) :: marks, congrArg (cs :: ·) hmarks,
                haccounts.cons_operand hp ho⟩
          · obtain ⟨marks, hmarks, haccounts⟩ := ih (vacates_false level _) hmore h
            exact ⟨(cs, .leftOver) :: marks, congrArg (cs :: ·) hmarks, haccounts.cons_leftOver⟩
      | terminator =>
          obtain rfl : cs = ['-', '-'] := eq_of_classify_terminator (hw.resolve_left nofun)
          exact exists_accounts_terminator hv h
      | long _ _ | short _ _ | unknown =>
          rw [useWords] at h
          · obtain ⟨use', huse, hrest⟩ := bind_eq_ok_iff.mp h
            have hv' : level.Vacates vacant use' := by rwa [Vacates, operand_of_useWord huse]
            obtain ⟨marks, hmarks, haccounts⟩ := ih hv' hmore hrest
            obtain ⟨role, hrole⟩ := exists_accounts_cons huse hw nofun haccounts
            exact ⟨(cs, role) :: marks, congrArg (cs :: ·) hmarks, hrole⟩
          all_goals nofun

/-- Every argument of a level has a role in its use. -/
theorem exists_accounts_read (h : level.read args = .ok use) :
    ∃ marks, marks.map Prod.fst = args ∧ level.Accounts ⟨[], none, []⟩ marks use := by
  obtain ⟨words, hwords, huse⟩ := bind_eq_ok_iff.mp h
  obtain ⟨hfst, hforms⟩ := map_fst_words hwords
  obtain ⟨marks, hmarks, haccounts⟩ := exists_accounts_useWords (fun hp => ⟨hp, rfl⟩) hforms huse
  exact ⟨marks, hmarks.trans hfst, haccounts⟩

/-! ## the words before the name of a command -/

/-- The words before the name of a command have roles that account for their use, also where there
is no name. -/
theorem exists_accounts_splitCommand {found : Option (List Char × List (List Char))}
    (hwords : ∀ p ∈ words, p.2 = .operand ∨ level.classify p.1 = .ok p.2)
    (h : level.splitCommand start words = .ok (use, found)) :
    ∃ marks, marks.map Prod.fst ++ (found.elim [] fun (name, rest) => name :: rest) =
      words.map Prod.fst ∧ level.Accounts start marks use := by
  induction words generalizing start with
  | nil =>
      rw [splitCommand] at h
      cases h
      exact ⟨[], rfl, .nil level _⟩
  | cons p words ih =>
      obtain ⟨cs, w⟩ := p
      obtain ⟨hw, hmore⟩ := List.forall_mem_cons.mp hwords
      cases w with
      | operand =>
          cases h
          exact ⟨[], rfl, .nil level _⟩
      | terminator =>
          rw [splitCommand] at h
          split at h
          · next hlast =>
            cases h
            obtain rfl := List.isEmpty_iff.mp hlast
            exact ⟨CommandLine.allLeftOver [cs], rfl, .allLeftOver level start [cs]⟩
          · cases h
            exact ⟨[], rfl, .nil level _⟩
      | long _ _ | short _ _ | unknown =>
          rw [splitCommand] at h
          · obtain ⟨use', huse, hrest⟩ := bind_eq_ok_iff.mp h
            obtain ⟨marks, hmarks, haccounts⟩ := ih hmore hrest
            obtain ⟨role, hrole⟩ := exists_accounts_cons huse hw nofun haccounts
            exact ⟨(cs, role) :: marks, congrArg (cs :: ·) hmarks, hrole⟩
          all_goals nofun

/-! ## a name at the end -/

/-- A further operand leaves the words before it as they are. -/
theorem words_append (h : level.words args = .ok words) (hc : level.classify cs = .ok .operand) :
    level.words (args ++ [cs]) = .ok (words ++ [(cs, .operand)]) := by
  induction args generalizing words with
  | nil =>
      cases h
      rw [List.nil_append, Level.words, hc]
      rfl
  | cons first args ih =>
      obtain ⟨hw, rfl⟩ | ⟨w, more, hw, hne, hmore, rfl⟩ := words_cons_cases h
      · rw [List.cons_append, Level.words, hw]
        simp [bind, Except.bind, pure, Except.pure]
      · rw [List.cons_append, Level.words, hw, ih hmore]
        cases w with
        | terminator => exact absurd rfl hne
        | operand | long _ _ | short _ _ | unknown => rfl

/-- Where words have no name of a command among them, an operand after them is the name, unless a
terminator at their end is taken for it. -/
theorem splitCommand_append (h : level.splitCommand start words = .ok (use, none))
    (cs : List Char) :
    level.splitCommand start (words ++ [(cs, .operand)]) = .ok (use, some (cs, [])) ∨
      ∃ name before rest, (name, .terminator) ∈ words ∧ use.leftOver = before.leftOver ++ [name] ∧
        level.splitCommand start (words ++ [(cs, .operand)]) = .ok (before, some (name, rest)) := by
  induction words generalizing start with
  | nil =>
      rw [splitCommand] at h
      cases h
      exact .inl rfl
  | cons p words ih =>
      obtain ⟨name, w⟩ := p
      cases w with
      | operand => cases h
      | terminator =>
          rw [splitCommand] at h
          split at h
          · next hlast =>
            cases h
            obtain rfl := List.isEmpty_iff.mp hlast
            exact .inr ⟨name, start, [cs], List.mem_cons_self, rfl, rfl⟩
          · cases h
      | long _ _ | short _ _ | unknown =>
          rw [splitCommand] at h
          · obtain ⟨use', huse, hrest⟩ := bind_eq_ok_iff.mp h
            rw [List.cons_append, splitCommand, huse]
            · obtain hname | ⟨name, before, rest, hmem, hleft, hsplit⟩ := ih hrest
              · exact .inl hname
              · exact .inr ⟨name, before, rest, List.mem_cons_of_mem _ hmem, hleft, hsplit⟩
            all_goals nofun
          all_goals nofun

end Level

/-! ## both levels -/

namespace Invocation

/-- The arguments before the name of a command, the name, if there is one, and the arguments after
it. -/
def splitOnce (args : List (List Char)) :
    Except Halt (Use × Option (List Char × List (List Char))) := do
  topLevel.splitCommand ⟨[], none, []⟩ (← topLevel.words args)

theorem split_of_some (h : splitOnce args = .ok (use, some (name, rest))) :
    split args = .ok (use, name, rest) := by
  obtain ⟨words, hwords, hsplit⟩ := bind_eq_ok_iff.mp h
  rw [split, hwords]
  simp only [bind, Except.bind]
  rw [hsplit]
  rfl

/-- Without a name of a command the name is `repl`, unless a terminator is taken for it. -/
theorem split_of_none (h : splitOnce args = .ok (use, none)) :
    split args = .ok (use, CommandName.repl.label.toList, []) ∨
      ['-', '-'] ∈ use.leftOver ∧ ∃ before rest, split args = .ok (before, ['-', '-'], rest) := by
  obtain ⟨words, hwords, hsplit⟩ := bind_eq_ok_iff.mp h
  have hrepl : topLevel.words (args ++ [CommandName.repl.label.toList]) =
      .ok (words ++ [(CommandName.repl.label.toList, .operand)]) :=
    Level.words_append hwords rfl
  rw [split, hwords]
  simp only [bind, Except.bind, hsplit, hrepl]
  obtain hname | ⟨name, before, rest, hmem, hleft, hname⟩ :=
    Level.splitCommand_append hsplit CommandName.repl.label.toList
  · rw [hname]
    exact .inl rfl
  · obtain rfl : name = ['-', '-'] := Level.eq_of_classify_terminator
      (((Level.map_fst_words hwords).2 _ hmem).resolve_left nofun)
    rw [hname]
    exact .inr ⟨by simp [hleft], before, rest, rfl⟩

/-- The name of the command is given, or it is `repl`, or it is the separator. -/
theorem split_cases {top : Use} (h : split args = .ok (top, name, rest)) :
    splitOnce args = .ok (top, some (name, rest)) ∨
      splitOnce args = .ok (top, none) ∧ name = CommandName.repl.label.toList ∧ rest = [] ∨
      name = ['-', '-'] := by
  obtain ⟨words, hwords, hfound⟩ := bind_eq_ok_iff.mp h
  obtain ⟨⟨use, found⟩, hsplit, -⟩ := bind_eq_ok_iff.mp hfound
  have honce : splitOnce args = .ok (use, found) := by
    rw [splitOnce, hwords]
    exact hsplit
  cases found with
  | some found =>
      rw [split_of_some honce] at h
      cases h
      exact .inl honce
  | none =>
      obtain hsplit | ⟨-, before, rest, hsplit⟩ := split_of_none honce
      all_goals
        rw [hsplit] at h
        cases h
      · exact .inr (.inl ⟨honce, rfl, rfl⟩)
      · exact .inr (.inr rfl)

theorem exists_accounts_splitOnce {found : Option (List Char × List (List Char))}
    (h : splitOnce args = .ok (use, found)) :
    ∃ marks, marks.map Prod.fst ++ (found.elim [] fun (name, rest) => name :: rest) = args ∧
      topLevel.Accounts ⟨[], none, []⟩ marks use := by
  obtain ⟨words, hwords, hsplit⟩ := bind_eq_ok_iff.mp h
  obtain ⟨hfst, hforms⟩ := Level.map_fst_words hwords
  rw [← hfst]
  exact Level.exists_accounts_splitCommand hforms hsplit

end Invocation

/-- The arguments as the levels sort them. -/
structure Sorting where
  top : Use
  command : CommandName
  use : Use

namespace Sorting

/-- The arguments that no level recognises. -/
def unrecognised (s : Sorting) : List (List Char) := s.top.leftOver ++ s.use.leftOver

/-- What is made of the arguments. -/
def settle (s : Sorting) : Except Halt Invocation := do
  let (command, leftOver) ← Command.ofUse s.unrecognised s.use s.command
  unless leftOver.isEmpty do throw (.usage topLevel.program (.leftOver leftOver))
  return ⟨s.top.switches.contains .verbose, command⟩

/-- The sorting accounts for all arguments: those of the upper level, then the name of the command
and its own.  Only the name `repl` may be missing, and then no argument is after it. -/
def Accounts (s : Sorting) (args : List (List Char)) : Prop :=
  ∃ topMarks marks, topLevel.Accounts ⟨[], none, []⟩ topMarks s.top ∧
    s.command.level.Accounts ⟨[], none, []⟩ marks s.use ∧
    (args = topMarks.map Prod.fst ++ s.command.label.toList :: marks.map Prod.fst ∨
      args = topMarks.map Prod.fst ∧ s.command = .repl ∧ marks = [])

end Sorting

namespace Invocation

/-- The arguments sorted by the levels, before anything is made of them. -/
def sort (args : List (List Char)) : Except Halt Sorting := do
  let (top, name, rest) ← split args
  let some command := CommandName.ofText? name
    | throw (.usage topLevel.program (.unknownCommand name))
  return ⟨top, command, ← command.level.read rest⟩

/-- The arguments are sorted first, and then the command is settled. -/
theorem ofArguments_eq (args : List (List Char)) :
    ofArguments args = sort args >>= Sorting.settle := by
  rw [ofArguments, sort]
  cases split args with
  | error halt => rfl
  | ok found =>
      obtain ⟨top, name, rest⟩ := found
      simp only [bind, Except.bind]
      cases CommandName.ofText? name with
      | none => rfl
      | some command =>
          dsimp only
          cases command.level.read rest <;> rfl

theorem eq_of_ofText? {command : CommandName} (h : CommandName.ofText? name = some command) :
    name = command.label.toList := by
  rw [CommandName.ofText?] at h
  have hlabel := List.find?_some h
  exact (of_decide_eq_true hlabel).symm

/-- Every argument has a role on one of the levels, or is the name of the command. -/
theorem accounts_of_sort {s : Sorting} (h : sort args = .ok s) : s.Accounts args := by
  obtain ⟨⟨top, name, rest⟩, hsplit, h⟩ := bind_eq_ok_iff.mp h
  cases hname : CommandName.ofText? name with
  | none => simp [hname, throw, throwThe, MonadExceptOf.throw] at h
  | some command =>
      simp only [hname] at h
      obtain ⟨use, hread, h⟩ := bind_eq_ok_iff.mp h
      cases h
      obtain rfl := eq_of_ofText? hname
      obtain ⟨marks, hmarks, haccounts⟩ := Level.exists_accounts_read hread
      obtain honce | ⟨honce, hrepl, rfl⟩ | hterminator := split_cases hsplit
      · obtain ⟨topMarks, htop, haccountsTop⟩ := exists_accounts_splitOnce honce
        exact ⟨topMarks, marks, haccountsTop, haccounts, .inl (by rw [← htop, ← hmarks]; rfl)⟩
      · obtain ⟨topMarks, htop, haccountsTop⟩ := exists_accounts_splitOnce honce
        refine ⟨topMarks, marks, haccountsTop, haccounts, .inr ⟨?_, ?_, ?_⟩⟩
        · simpa using htop.symm
        · rw [hrepl] at hname
          exact (Option.some.inj hname).symm
        · exact List.map_eq_nil_iff.mp hmarks
      · rw [hterminator] at hname
        cases hname

/-- Without the name of a command the arguments are those of a session, unless the terminator that
is taken for the name is among them. -/
theorem sort_of_none (h : splitOnce args = .ok (use, none)) :
    sort args = .ok ⟨use, .repl, ⟨[], none, []⟩⟩ ∨
      use.leftOver ≠ [] ∧
        sort args = .error (.usage topLevel.program (.unknownCommand ['-', '-'])) := by
  obtain hsplit | ⟨hmem, before, rest, hsplit⟩ := split_of_none h
  · exact .inl (by rw [sort, hsplit]; rfl)
  · exact .inr ⟨List.ne_nil_of_mem hmem, by rw [sort, hsplit]; rfl⟩

end Invocation

end LineCalc.CommandLine
