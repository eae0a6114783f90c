import LineCalc.Proofs.Cutting.Spaced
import LineCalc.Proofs.Line.Outcome
import LineCalc.Proofs.Reading.Depth
import LineCalc.Proofs.Reading.Verdict

/-!
# LineCalc.Proofs.Line.Depth

The depth that is allowed, and the lines.  Every line has one depth from which
on the setting makes no difference to it: `Line.read_by_depth`.
-/

namespace LineCalc.Line

/-- For every line there is one number, the most parentheses open at once in the tokens that are
read before its end or its first other fault.  Where fewer are allowed, the line fails at a
parenthesis that opens one level too many; where as many or more are, the outcome is the same
whatever the depth: one expression, or one other fault of the grammar. -/
theorem read_by_depth (trailingDot : Bool) (text : List Char) :
    ∃ (front : List Token) (n : Nat) (out : Except Reading.Fault Expr),
      (((∃ e, out = .ok e) ∧ tokensOf trailingDot text = front ++ [.endOfLine]) ∨
        ∃ f more, out = .error (.grammar f) ∧ (∀ t, f ≠ .tooDeep t) ∧
          tokensOf trailingDot text = front ++ f.token :: more) ∧
      (∀ depth, n ≤ depth ↔ NestsWithin depth front) ∧
      (∀ limit, n ≤ limit → Reading.taken limit (tokensOf trailingDot text) = front) ∧
      ∀ s depth, s.trailingDot = trailingDot → Settings.depthOf? s.maxDepth = some depth →
        depth ≤ Settings.deepest ∨ n ≤ Settings.deepest →
        (depth < n →
          ∃ t, t.kind = .openParen ∧ read s text = .error (.grammar (.tooDeep t))) ∧
        (n ≤ depth → read s text = out) := by
  have hl := isLine_tokensOf trailingDot text
  obtain ⟨front, out, hout, hfrom, hbelow⟩ := readTokens_by_limit hl
  have hn : ∀ depth, height front ≤ depth ↔ NestsWithin depth front := height_le_iff front
  refine ⟨front, height front, out, ?_, hn, fun limit h => (hfrom limit h).2,
    fun s depth hdot hdepth hle => ?_⟩
  · obtain ⟨hread, htaken⟩ := hfrom _ (Nat.le_refl _)
    have hends := taken_cases hl (readable_tokensOf trailingDot text) (hread ▸ hout)
    rw [hread, htaken] at hends
    refine hends.imp_left fun ⟨e, he, hbefore⟩ => ⟨⟨e, he⟩, ?_⟩
    obtain ⟨before, hts, hv⟩ := (cuts_tokensOf trailingDot text).exists_isValid
    have hend : ∀ t ∈ before, t.kind ≠ .eof := fun t ht => Cursor.ne_eof_of_isValid (hv t ht)
    rw [hbefore, hts, beforeEnd_append hend rfl]
  · have hread : read s text = readTokens (min depth Settings.deepest)
        (tokensOf trailingDot text) := by
      rw [read, outcome, tokens, hdot, Settings.limit_eq hdepth]
      rfl
    rw [hread]
    exact ⟨fun h => hbelow _ (by omega), fun h => (hfrom _ (by omega)).1⟩

/-- A group, and after it one in another that do not end. -/
def besideGroup : List (List Char × Token) :=
  [([], ⟨.openParen, ['(']⟩), ([], ⟨.number, ['1']⟩), ([], ⟨.closeParen, [')']⟩),
   ([], ⟨.minus, ['-']⟩), ([], ⟨.openParen, ['(']⟩), ([], ⟨.openParen, ['(']⟩)]

/-- Groups beside each other do not add up: where two levels are enough, a hundred change
nothing. -/
theorem read_besideGroup :
    (∃ t, t.kind = .openParen ∧
      read { Settings.standard with maxDepth := .int 1 } "(1)-((".toList =
        .error (.grammar (.tooDeep t))) ∧
      read { Settings.standard with maxDepth := .int 2 } "(1)-((".toList =
        .error (.grammar (.invalid .endOfLine)) ∧
      read Settings.standard "(1)-((".toList = .error (.grammar (.invalid .endOfLine)) := by
  have happ : besideGroup.IsChain Apart := by simp [besideGroup, Apart]
  have htokens :
      tokensOf true "(1)-((".toList = besideGroup.map Prod.snd ++ [.endOfLine] :=
    tokensOf_spaced happ (by decide) (by decide) rfl
  have hl := isLine_tokensOf true "(1)-((".toList
  have hr := readable_tokensOf true "(1)-((".toList
  have hfault : ∀ {limit f},
      Counter.check limit (besideGroup.map Prod.snd ++ [.endOfLine]) = .error f →
        readTokens limit (tokensOf true "(1)-((".toList) = .error (.grammar f) :=
    fun h => (readTokens_error_iff_check hl hr).mpr (htokens ▸ h)
  have hone : read { Settings.standard with maxDepth := .int 1 } "(1)-((".toList =
      .error (.grammar (.tooDeep ⟨.openParen, ['(']⟩)) := hfault rfl
  have htwo : read { Settings.standard with maxDepth := .int 2 } "(1)-((".toList =
      .error (.grammar (.invalid .endOfLine)) := hfault rfl
  obtain ⟨front, n, out, -, -, -, h⟩ := read_by_depth true "(1)-((".toList
  obtain ⟨hfew, hsame⟩ :=
    h { Settings.standard with maxDepth := .int 2 } 2 rfl rfl (.inl (by decide))
  have hn : n ≤ 2 := by
    refine Nat.le_of_not_lt fun hlt => ?_
    obtain ⟨t, -, ht⟩ := hfew hlt
    cases htwo.symm.trans ht
  have hmany := (h Settings.standard 100 rfl rfl (.inl (by decide))).2 (by omega)
  exact ⟨⟨_, rfl, hone⟩, htwo, hmany.trans ((hsame hn).symm.trans htwo)⟩

end LineCalc.Line
