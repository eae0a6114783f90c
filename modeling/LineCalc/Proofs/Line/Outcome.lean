import LineCalc.Line
import LineCalc.Proofs.Cutting.Tokens
import LineCalc.Proofs.Decimal.Numeral
import LineCalc.Proofs.Evaluation.Tasks
import LineCalc.Proofs.Reading.Course

/-!
# LineCalc.Proofs.Line.Outcome

The ways in which a line can end.  The numbers among the tokens of a line are
numerals (`readable_tokensOf`), so reading them never fails, and what is left
of the faults of a reading are those of the grammar.  An expression that was
read has a value, or is refused a division.
-/

namespace LineCalc

variable {text : List Char}

/-- The last token of a scan is the end of the line. -/
theorem isLine_tokensOf (trailingDot : Bool) (text : List Char) :
    Reading.isLine (tokensOf trailingDot text) = true := by
  obtain ⟨before, hts, -⟩ := (cuts_tokensOf trailingDot text).exists_isValid
  simp [hts, Reading.isLine, Token.endOfLine]

/-- Every number token of a scan has a value. -/
theorem readable_tokensOf (trailingDot : Bool) (text : List Char) :
    Readable (tokensOf trailingDot text) := by
  intro t ht hk
  obtain ⟨before, hts, hv⟩ := (cuts_tokensOf trailingDot text).exists_isValid
  rw [hts, List.mem_append, List.mem_singleton] at ht
  obtain ht | rfl := ht
  · have hn : isNumber trailingDot t.lexeme = true := by simpa [Token.isValid, hk] using hv t ht
    exact Token.exists_value hk hn
  · simp [Token.endOfLine] at hk

/-- A line is an expression, or its tokens fail to be one by the grammar. -/
theorem readTokens_tokensOf_cases (limit : Nat) (trailingDot : Bool) (text : List Char) :
    (∃ e, readTokens limit (tokensOf trailingDot text) = .ok e) ∨
      ∃ g, readTokens limit (tokensOf trailingDot text) = .error (.grammar g) :=
  readTokens_cases limit (isLine_tokensOf trailingDot text) (readable_tokensOf trailingDot text)

namespace Expr

/-- Where division by zero is a value, there is a value; otherwise an expression has one or is
refused a division. -/
theorem evaluate_cases (d : Division) (e : Expr) :
    (∃ x, e.evaluate d = .ok x) ∨
      d = .strict ∧ ∃ node, e.evaluate d = .error (.zeroDivision node) := by
  cases h : e.evaluate d with
  | ok x => exact .inl ⟨x, rfl⟩
  | error stop =>
      rw [evaluate, evaluateWith_eq_denote] at h
      obtain ⟨hd, node, -, rfl⟩ := exists_of_denote_eq_error h
      exact .inr ⟨hd, node, rfl⟩

end Expr

namespace Line

/-- A line that is read ends as its expression does. -/
theorem evaluate_of_read {s : Settings} {e : Expr} (h : read s text = .ok e) :
    evaluate s text = (e.evaluate s.division).mapError .evaluation := by
  rw [evaluate, h]
  rfl

/-- A line that is not read ends with the fault of the reading. -/
theorem evaluate_of_read_error {s : Settings} {f : Reading.Fault} (h : read s text = .error f) :
    evaluate s text = .error (.reading f) := by
  rw [evaluate, h]
  rfl

/-- A line has a value, or fails by the grammar, or is refused a division. -/
theorem evaluate_cases (s : Settings) (text : List Char) :
    (∃ x, evaluate s text = .ok x) ∨
      (∃ g, evaluate s text = .error (.reading (.grammar g))) ∨
      s.division = .strict ∧
        ∃ node, evaluate s text = .error (.evaluation (.zeroDivision node)) := by
  obtain ⟨e, he⟩ | ⟨g, hg⟩ := readTokens_tokensOf_cases s.limit s.trailingDot text
  · rw [evaluate_of_read he]
    obtain ⟨x, hx⟩ | ⟨hd, node, hn⟩ := e.evaluate_cases s.division
    · exact .inl ⟨x, by rw [hx]; rfl⟩
    · exact .inr (.inr ⟨hd, node, by rw [hn]; rfl⟩)
  · exact .inr (.inl ⟨g, evaluate_of_read_error hg⟩)

/-- The attempt at a line with a value holds it and no fault. -/
theorem attempt_of_ok {s : Settings} {x : Float} (h : evaluate s text = .ok x) :
    (attempt s text).ok = true ∧ (attempt s text).value? = some x ∧
      (attempt s text).fault? = none := by
  rw [Attempt.ok, Attempt.value?, Attempt.fault?, outcome_attempt, h]
  exact ⟨rfl, rfl, rfl⟩

/-- The attempt at a line with a fault holds it and no value. -/
theorem attempt_of_error {s : Settings} {f : Fault} (h : evaluate s text = .error f) :
    (attempt s text).ok = false ∧ (attempt s text).value? = none ∧
      (attempt s text).fault? = some f := by
  rw [Attempt.ok, Attempt.value?, Attempt.fault?, outcome_attempt, h]
  exact ⟨rfl, rfl, rfl⟩

/-- Whatever the settings and the line, there is a value, a fault of the grammar or, under the
strict policy alone, a refused division, and reading fails by the grammar alone at any limit; no
number without a value, node that cannot be made, missing token or missing operand is among the
outcomes.  An attempt keeps the line and just this outcome. -/
theorem attempt_cases (s : Settings) (text : List Char) :
    ((∃ x, evaluate s text = .ok x) ∨
      (∃ g, evaluate s text = .error (.reading (.grammar g))) ∨
      s.division = .strict ∧
        ∃ node, evaluate s text = .error (.evaluation (.zeroDivision node))) ∧
    (∀ limit, (∃ e, readTokens limit (tokens s text) = .ok e) ∨
      ∃ g, readTokens limit (tokens s text) = .error (.grammar g)) ∧
    (attempt s text).text = text ∧
    (∀ x, evaluate s text = .ok x → (attempt s text).ok = true ∧
      (attempt s text).value? = some x ∧ (attempt s text).fault? = none) ∧
    ∀ f, evaluate s text = .error f → (attempt s text).ok = false ∧
      (attempt s text).value? = none ∧ (attempt s text).fault? = some f :=
  ⟨evaluate_cases s text, fun limit => readTokens_tokensOf_cases limit s.trailingDot text, rfl,
    fun _ => attempt_of_ok, fun _ => attempt_of_error⟩

end Line

end LineCalc
