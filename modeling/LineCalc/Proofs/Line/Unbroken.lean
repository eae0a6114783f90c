import LineCalc.Proofs.Line.Display
import LineCalc.Proofs.Line.Rendered
import LineCalc.Proofs.Text.LineBreaks

/-!
# LineCalc.Proofs.Line.Unbroken

What is said of a line has no line break in it, whatever the line is.  A lexeme
has no blank in it, so neither have a token as it is shown and an expression
with its signs and operators in front; a message quotes lexemes only, and quotes
escape what would break a line; and the display of a double is ASCII.
-/

namespace LineCalc

open Text

variable {trailingDot : Bool} {t : Token} {e : Expr} {s : Settings} {text : List Char}

/-! ## tokens and expressions -/

namespace Token

/-- No lexeme of a scan holds a line break. -/
theorem unbroken_lexeme (h : t.isValid trailingDot = true) : Unbroken t.lexeme :=
  fun _ hc => isLineBreak_eq_false_of_not_blank (not_blank_of_mem h hc)

/-- The line of a token is its label and its lexeme. -/
theorem toList_line (t : Token) : t.line.toList =
    "Type: ".toList ++ (t.kind.label.toList ++ (", lexeme: ".toList ++ t.lexeme)) := by
  simp [line]

theorem unbroken_line (h : Unbroken t.lexeme) : Unbroken t.line.toList := by
  have hlabel : ∀ k : Kind, Unbroken k.label.toList := by
    intro k
    cases k <;> decide
  rw [toList_line, unbroken_append, unbroken_append, unbroken_append]
  exact ⟨by decide, hlabel _, by decide, h⟩

/-- No description of a token holds a line break. -/
theorem unbroken_describe (t : Token) : Unbroken t.describe.toList := by
  rw [describe]
  split
  · decide
  · rw [Text.quote, String.toList_ofList]
    exact unbroken_quoted _

end Token

theorem unbroken_lexeme_of_isNumber {lexeme : List Char} (h : isNumber trailingDot lexeme = true) :
    Unbroken lexeme :=
  Token.unbroken_lexeme (t := ⟨.number, lexeme⟩) h

theorem Kind.unbroken_symbol (k : Kind) : Unbroken k.symbol := by cases k <;> decide

/-- No text of an expression holds a line break. -/
theorem Expr.unbroken_rendered (he : e.IsLexical trailingDot) : Unbroken e.rendered := by
  have space : isLineBreak ' ' = false := by decide
  have opening : isLineBreak '(' = false := by decide
  have closing : isLineBreak ')' = false ∧ Unbroken [] := by decide
  induction e with
  | literal v lexeme => exact unbroken_lexeme_of_isNumber he.1
  | signed s e ih =>
      simp only [rendered, unbroken_cons, unbroken_append]
      exact ⟨opening, ⟨s.kind.unbroken_symbol, space, ih he⟩, closing⟩
  | binary o l r ihl ihr =>
      simp only [rendered, unbroken_cons, unbroken_append]
      exact ⟨opening, ⟨⟨o.kind.unbroken_symbol, space, ihl he.1⟩, space, ihr he.2⟩, closing⟩

/-! ## values -/

namespace Decimal

theorem unbroken_of_isPlainDigit {ds : List Char} (h : ∀ d ∈ ds, isPlainDigit d = true) :
    Unbroken ds := fun d hd =>
  isLineBreak_eq_false_of_not_blank (isBlank_eq_false (isDigit_of_isPlainDigit (h d hd)))

theorem unbroken_exponentText (width : Nat) (e : Int) :
    Unbroken (Layout.exponentText width e) := by
  have hsign : isLineBreak (if e < 0 then '-' else '+') = false := by split <;> decide
  rw [Layout.exponentText, List.leftpad, unbroken_cons, unbroken_cons, unbroken_append]
  exact ⟨by decide, hsign, unbroken_of_isPlainDigit fun _ => isPlainDigit_of_mem_zeros,
    unbroken_of_isPlainDigit fun _ => isPlainDigit_of_mem_toDigits⟩

theorem Parts.unbroken_text (l : Layout) (p : Parts) : Unbroken (p.text l) := by
  have hwhole := unbroken_of_isPlainDigit p.isPlainDigit_whole
  have hfraction : Unbroken (pointPart p.fraction) := by
    by_cases h : p.fraction = []
    · rw [h, pointPart]
      decide
    · rw [pointPart_eq h, unbroken_cons]
      exact ⟨by decide, unbroken_of_isPlainDigit p.isPlainDigit_fraction⟩
  have hexponent : Unbroken (exponentPart l p.exponent?) := by
    cases p.exponent? with
    | none => exact List.forall_mem_nil _
    | some e => exact unbroken_exponentText _ e
  rw [text, unbroken_append, unbroken_append]
  exact ⟨⟨hwhole, hfraction⟩, hexponent⟩

theorem unbroken_withSign {digits : List Char} (h : Unbroken digits) (negative : Bool) :
    Unbroken (Layout.withSign negative digits) := by
  cases negative with
  | false => exact h
  | true => exact unbroken_cons.mpr ⟨by decide, h⟩

/-- No displayed value holds a line break. -/
theorem unbroken_display (x : Float) : Unbroken (display x) := by
  by_cases h : Binary64.isFinite x = true
  · obtain ⟨p, hp, -⟩ := exists_parts_display h
    rw [hp]
    exact unbroken_withSign (p.unbroken_text _) _
  · have hn : ¬ Binary64.pattern x < Binary64.infinity := fun hlt => h (decide_eq_true hlt)
    have hdisplay : display x = Layout.document.write x := by simp [display, Binary64.whole?, h]
    rw [hdisplay, Layout.write, Layout.writeMagnitude, if_neg hn]
    split
    · decide
    · exact unbroken_withSign (by decide) _

end Decimal

/-! ## faults -/

/-- No message of the grammar holds a line break. -/
theorem GrammarFault.unbroken_message (f : GrammarFault) : Unbroken f.message.toList := by
  cases f with
  | invalid t =>
      show Unbroken ("Invalid token " ++ t.describe).toList
      rw [String.toList_append, unbroken_append]
      exact ⟨by decide +kernel, t.unbroken_describe⟩
  | tooDeep t =>
      show Unbroken "expression nested too deeply".toList
      decide +kernel
  | unclosed previous t =>
      show Unbroken ("Expected ')' after " ++ previous.describe).toList
      rw [String.toList_append, unbroken_append]
      exact ⟨by decide +kernel, previous.unbroken_describe⟩
  | leftOver t =>
      show Unbroken ("Unexpected token " ++ t.describe ++ " after end of expression").toList
      rw [String.toList_append, String.toList_append, unbroken_append, unbroken_append]
      exact ⟨⟨by decide +kernel, t.unbroken_describe⟩, by decide +kernel⟩

namespace Line

/-- The node that a line is refused a division at is one of its expression. -/
theorem exists_read_of_zeroDivision {node : Expr}
    (h : evaluate s text = .error (.evaluation (.zeroDivision node))) :
    ∃ e, read s text = .ok e ∧ node ∈ e.postOrder := by
  cases hread : read s text with
  | error f => simp [evaluate_of_read_error hread] at h
  | ok e =>
      rw [evaluate_of_read hread] at h
      cases hvalue : e.evaluate s.division with
      | ok x => simp [hvalue, Except.mapError] at h
      | error stop =>
          rw [Expr.evaluate, Expr.evaluateWith_eq_denote] at hvalue
          obtain ⟨-, found, hfound, rfl⟩ := Expr.exists_of_denote_eq_error hvalue
          obtain rfl : found = node := by
            rw [Expr.evaluate, Expr.evaluateWith_eq_denote, hvalue] at h
            simpa [Except.mapError] using h
          exact ⟨e, rfl, List.mem_of_find?_eq_some hfound⟩

/-- The message of the fault that a line ends with has no line break in it. -/
theorem unbroken_message {f : Fault} (h : evaluate s text = .error f) :
    Unbroken f.message.toList := by
  obtain ⟨x, hx⟩ | ⟨g, hg⟩ | ⟨-, node, hn⟩ := evaluate_cases s text
  · simp [hx] at h
  · obtain rfl : f = .reading (.grammar g) := Except.error.inj (h.symm.trans hg)
    exact g.unbroken_message
  · obtain rfl : f = .evaluation (.zeroDivision node) := Except.error.inj (h.symm.trans hn)
    obtain ⟨e, he, hnode⟩ := exists_read_of_zeroDivision h
    have hlexical := (isLexical_of_read he).of_mem_postOrder hnode
    show Unbroken (Stop.zeroDivision node).message.toList
    rw [Expr.message_zeroDivision, String.toList_append, unbroken_append,
      String.toList_ofList (l := node.rendered)]
    exact ⟨by decide +kernel, Expr.unbroken_rendered hlexical⟩

/-- The tokens of a line have no line break in their lexemes. -/
theorem unbroken_of_mem_tokens (h : t ∈ tokens s text) : Unbroken t.lexeme := by
  obtain ⟨before, hts, hv⟩ := (cuts_tokensOf s.trailingDot text).exists_isValid
  rw [tokens, hts, List.mem_append, List.mem_singleton] at h
  obtain h | rfl := h
  · exact Token.unbroken_lexeme (hv t h)
  · decide

end Line

end LineCalc
