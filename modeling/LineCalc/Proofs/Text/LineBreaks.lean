import LineCalc.Proofs.Text.Classes
import LineCalc.Text.Quoted

/-!
# LineCalc.Proofs.Text.LineBreaks

Texts without line breaks in them.  A line break is a blank, and no printable
character is one, so a text between quotation marks has none, whatever it
quotes (`unbroken_quoted`).  Texts without line breaks that are written with a
line feed after each are found again where the whole is parted at its line
breaks: `splitLines_flatMap`.
-/

namespace LineCalc.Text

variable {c mark : Char} {cs ds line : List Char} {lines : List (List Char)}

/-! ## characters that break no line -/

/-- Every line break is a blank. -/
theorem isLineBreak_eq_false_of_not_blank (h : isBlank c = false) : isLineBreak c = false := by
  rw [Bool.eq_false_iff]
  intro hc
  simp [isBlank_of_isLineBreak hc] at h

/-- Every range of line breaks lies in one of characters that are not printable. -/
theorem exists_hidden_of_lineBreak :
    ∀ r ∈ lineBreakRanges, ∃ s ∈ hiddenRanges, s.1 ≤ r.1 ∧ r.2 ≤ s.2 := by
  decide +kernel

/-- No printable character is a line break. -/
theorem isLineBreak_eq_false_of_isPrintable (h : isPrintable c = true) : isLineBreak c = false := by
  rw [Bool.eq_false_iff]
  intro hc
  obtain ⟨r, hr, hfirst, hlast⟩ := (Ranges.contains_iff ascending_lineBreakRanges).mp hc
  obtain ⟨s, hs, hfirst', hlast'⟩ := exists_hidden_of_lineBreak r hr
  have hhidden : hiddenRanges.contains c.toNat = true :=
    (Ranges.contains_iff ascending_hiddenRanges).mpr
      ⟨s, hs, Nat.le_trans hfirst' hfirst, Nat.le_trans hlast hlast'⟩
  simp [isPrintable, hhidden] at h

/-! ## texts -/

/-- A text with no line break in it. -/
def Unbroken (cs : List Char) : Prop := ∀ c ∈ cs, isLineBreak c = false

instance (cs : List Char) : Decidable (Unbroken cs) :=
  List.decidableBAll (isLineBreak · = false) cs

/-- Unbroken texts stay so when they are joined. -/
theorem unbroken_append : Unbroken (cs ++ ds) ↔ Unbroken cs ∧ Unbroken ds := List.forall_mem_append

theorem unbroken_cons : Unbroken (c :: cs) ↔ isLineBreak c = false ∧ Unbroken cs :=
  List.forall_mem_cons

/-! ## quoted texts -/

theorem unbroken_toDigits (n : Nat) : Unbroken (Nat.toDigits 16 n) := by
  have digit : ∀ d < 16, Unbroken [Nat.digitChar d] := by decide
  induction n using Nat.strongRecOn with
  | ind n ih =>
      by_cases h : n < 16
      · rw [Nat.toDigits_of_lt_base h]
        exact digit n h
      · rw [Nat.toDigits_of_base_le (by decide) (by omega)]
        exact unbroken_append.mpr ⟨ih (n / 16) (by omega), digit _ (by omega)⟩

/-- An escape's digits hold no line break. -/
theorem unbroken_hexDigits (width n : Nat) : Unbroken (hexDigits width n) := by
  rw [hexDigits, List.leftpad, unbroken_append]
  refine ⟨fun c hc => ?_, unbroken_toDigits n⟩
  rw [List.eq_of_mem_replicate hc]
  decide

/-- An escaped character holds no line break. -/
theorem unbroken_escape (hmark : isLineBreak mark = false) (c : Char) :
    Unbroken (escape mark c) := by
  have backslash : isLineBreak '\\' = false := by decide
  have pair : ∀ d, isLineBreak d = false → Unbroken ['\\', d] := by
    intro d hd
    simp [Unbroken, backslash, hd]
  unfold escape
  split
  · next h =>
    obtain rfl | rfl : c = mark ∨ c = '\\' := by simpa using h
    · exact pair _ hmark
    · exact pair _ backslash
  · split
    · exact pair _ (by decide)
    · split
      · exact pair _ (by decide)
      · split
        · exact pair _ (by decide)
        · split
          · next hp =>
            intro d hd
            rw [List.mem_singleton.mp hd]
            exact isLineBreak_eq_false_of_isPrintable hp
          · unfold codePointEscape
            repeat' split
            all_goals
              simp only [unbroken_cons, backslash, true_and]
              exact ⟨by decide, unbroken_hexDigits _ _⟩

/-- A text between quotation marks has no line break in it, whatever it quotes. -/
theorem unbroken_quoted (s : List Char) : Unbroken (quoted s) := by
  have hmark : isLineBreak (markFor s) = false := by
    unfold markFor
    split <;> decide
  rw [quoted, unbroken_cons, unbroken_append]
  refine ⟨hmark, fun c hc => ?_, fun c hc => ?_⟩
  · obtain ⟨d, -, hd⟩ := List.mem_flatMap.mp hc
    exact unbroken_escape hmark d c hd
  · rw [List.mem_singleton.mp hc]
    exact hmark

/-! ## lines -/

/-- The lines of a text.  Every line break ends one, where a carriage return and a line feed after
it are one break; the last line may lack its own. -/
def splitLines (text : List Char) : List (List Char) := collect [] text
where
  /-- The lines of a text that continues a line, of which the characters so far are given, the
  last one first. -/
  collect (current : List Char) : List Char → List (List Char)
    | [] => if current.isEmpty then [] else [current.reverse]
    | '\r' :: '\n' :: cs => current.reverse :: collect [] cs
    | c :: cs =>
      if isLineBreak c then current.reverse :: collect [] cs else collect (c :: current) cs

example : splitLines ['a', '\r', '\n', '\n', 'b', '\u2028', 'c'] = [['a'], [], ['b'], ['c']] := rfl

namespace splitLines

/-- An unbroken line and the line feed behind it are one line. -/
theorem collect_append (h : Unbroken line) (current rest : List Char) :
    collect current (line ++ '\n' :: rest) = (current.reverse ++ line) :: collect [] rest := by
  induction line generalizing current with
  | nil =>
      rw [List.nil_append, collect, if_pos (by decide), List.append_nil]
      simp
  | cons c line ih =>
      obtain ⟨hc, hline⟩ := unbroken_cons.mp h
      rw [List.cons_append, collect, if_neg (by simp [hc]), ih hline]
      · simp
      · rintro _ rfl _
        exact absurd hc (by decide)

end splitLines

/-- Texts without line breaks, with a line feed after each, are the lines of the whole. -/
theorem splitLines_flatMap (h : ∀ line ∈ lines, Unbroken line) :
    splitLines (lines.flatMap (· ++ ['\n'])) = lines := by
  induction lines with
  | nil => rfl
  | cons line lines ih =>
      obtain ⟨hline, hlines⟩ := List.forall_mem_cons.mp h
      rw [List.flatMap_cons, List.append_assoc, List.singleton_append, splitLines,
        splitLines.collect_append hline]
      exact congrArg (line :: ·) (ih hlines)

end LineCalc.Text
