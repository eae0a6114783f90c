import LineCalc.Proofs.Cutting.Spaced
import LineCalc.Proofs.Cutting.TrailingDot
import LineCalc.Proofs.Line.Derived
import LineCalc.Proofs.Line.Stray

/-!
# LineCalc.Proofs.Line.TrailingDot

Lines under the two settings for points at the end of numbers.  Where a number
may not end in a bare point, the point is an error token, and no expression
has one; so the lines that are expressions then are those that are without
such a point, and to any line without one the settings make no difference:
`Line.trailing_points`.
-/

namespace LineCalc.Line

variable {on off : Settings} {s : Settings} {text : List Char} {t : Token} {e : Expr}

/-- A bare point at the end of a number is an error where it may not be there. -/
theorem exists_error_of_endsInPoint (ht : t ∈ tokensOf true text) (hp : t.endsInPoint = true) :
    ∃ u ∈ tokensOf false text, u.kind = .error := by
  refine ⟨⟨.error, ['.']⟩, ?_, rfl⟩
  rw [tokensOf_false]
  exact List.mem_flatMap.mpr ⟨t, ht, by simp [Token.splitPoint, hp]⟩

/-- A setting for points and the same settings otherwise. -/
theorem tokens_of_trailingDot {given : Json} {trailingDot : Bool} (h : given.holds = trailingDot) :
    tokens { s with allowTrailingDot := given } text = tokensOf trailingDot text := by
  rw [tokens, Settings.trailingDot, h]

/-- Without a bare point in a line the settings for points make no difference. -/
theorem attempt_eq_of_tokens {on off : Json}
    (h : tokens { s with allowTrailingDot := off } text =
      tokens { s with allowTrailingDot := on } text) :
    attempt { s with allowTrailingDot := off } text =
      attempt { s with allowTrailingDot := on } text := by
  have houtcome : outcome { s with allowTrailingDot := off } text =
      outcome { s with allowTrailingDot := on } text := by
    rw [outcome, outcome, h]
    rfl
  rw [attempt, attempt, houtcome]
  rfl

/-- Where numbers may not end in a bare point, a line has the tokens that it has where they may,
except that each such point is an error token after the number.  It is an expression exactly if it
is one there and has no such point, and then the same one; and without such a point the attempt at
the line is the same, whatever the outcome. -/
theorem trailing_points (s : Settings) (on off : Json) (hon : on.holds = true)
    (hoff : off.holds = false) (text : List Char) :
    tokens { s with allowTrailingDot := off } text =
        (tokens { s with allowTrailingDot := on } text).flatMap Token.splitPoint ∧
    (∀ e, read { s with allowTrailingDot := off } text = .ok e ↔
      read { s with allowTrailingDot := on } text = .ok e ∧
        ∀ t ∈ tokens { s with allowTrailingDot := on } text, t.endsInPoint = false) ∧
    ((∀ t ∈ tokens { s with allowTrailingDot := on } text, t.endsInPoint = false) →
      attempt { s with allowTrailingDot := off } text =
        attempt { s with allowTrailingDot := on } text) := by
  have hsame : (∀ t ∈ tokens { s with allowTrailingDot := on } text, t.endsInPoint = false) →
      tokens { s with allowTrailingDot := off } text =
        tokens { s with allowTrailingDot := on } text := by
    rw [tokens_of_trailingDot hon, tokens_of_trailingDot hoff]
    exact tokensOf_false_eq
  have hread : ∀ e, (∀ t ∈ tokens { s with allowTrailingDot := on } text, t.endsInPoint = false) →
      (read { s with allowTrailingDot := off } text = .ok e ↔
        read { s with allowTrailingDot := on } text = .ok e) := by
    intro e h
    rw [read, read, outcome, outcome, hsame h]
    rfl
  refine ⟨?_, fun e => ⟨fun he => ?_, fun ⟨he, hp⟩ => (hread e hp).mpr he⟩,
    fun hp => attempt_eq_of_tokens (hsame hp)⟩
  · rw [tokens_of_trailingDot hon, tokens_of_trailingDot hoff, tokensOf_false]
  · have hp : ∀ t ∈ tokens { s with allowTrailingDot := on } text, t.endsInPoint = false := by
      intro t ht
      rw [tokens_of_trailingDot hon] at ht
      by_contra hpoint
      obtain ⟨u, hu, hk⟩ := exists_error_of_endsInPoint ht (by simpa using hpoint)
      rw [← tokens_of_trailingDot (s := s) hoff] at hu
      exact ne_error_of_read he u hu hk
    exact ⟨(hread e hp).mp he, hp⟩

/-- A sum with a bare point in it. -/
def pointedSum : List (List Char × Token) :=
  [([], ⟨.number, ['5', '.']⟩), ([], Kind.plus.token), ([], ⟨.number, ['1']⟩)]

/-- A zero as the setting turns a bare point into an error. -/
theorem trailing_points_sum :
    (Json.bool true).holds = true ∧ (Json.int 0).holds = false ∧
      tokens { Settings.standard with allowTrailingDot := .bool true } "5.+1".toList =
        [⟨.number, ['5', '.']⟩, ⟨.plus, ['+']⟩, ⟨.number, ['1']⟩, .endOfLine] ∧
      tokens { Settings.standard with allowTrailingDot := .int 0 } "5.+1".toList =
        [⟨.number, ['5']⟩, ⟨.error, ['.']⟩, ⟨.plus, ['+']⟩, ⟨.number, ['1']⟩, .endOfLine] ∧
      ∀ e, read { Settings.standard with allowTrailingDot := .int 0 } "5.+1".toList ≠ .ok e := by
  have happ : pointedSum.IsChain Apart := by simp [pointedSum, Apart, Kind.token]
  have hspaced :
      tokensOf true (spaced pointedSum ++ []) = pointedSum.map Prod.snd ++ [.endOfLine] :=
    tokensOf_spaced happ (by decide) (by decide) rfl
  have htokens : tokens { Settings.standard with allowTrailingDot := .bool true } "5.+1".toList =
      [⟨.number, ['5', '.']⟩, ⟨.plus, ['+']⟩, ⟨.number, ['1']⟩, .endOfLine] := hspaced
  obtain ⟨hsplit, hread, -⟩ :=
    trailing_points .standard (.bool true) (.int 0) rfl rfl "5.+1".toList
  refine ⟨rfl, rfl, htokens, ?_, fun e he => ?_⟩
  · rw [hsplit, htokens]
    decide
  · have hpoint := ((hread e).mp he).2 ⟨.number, ['5', '.']⟩ (by rw [htokens]; decide)
    simp [Token.endsInPoint] at hpoint

end LineCalc.Line
