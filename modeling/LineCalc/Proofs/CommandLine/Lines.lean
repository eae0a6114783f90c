import LineCalc.Proofs.CommandLine.FrontEnds
import LineCalc.Proofs.Line.Unbroken

/-!
# LineCalc.Proofs.CommandLine.Lines

The lines that an evaluation writes.  No line has a line break in it, so they
are found again in the output; and a token is read from the line that shows it
(`Token.ofLine?_line`), up to the end of the line, which is a token as well.
So the output is one line for each token, one for the expression if there is
one, and one for the outcome, and the tokens are known from it:
`runEval_lines`.
-/

namespace LineCalc

open Text

/-! ## tokens from the lines that show them -/

theorem Kind.ne_comma_of_mem_label (k : Kind) : ∀ c ∈ k.label.toList, c ≠ ',' := by
  cases k <;> simp [label]

namespace Token

variable {ts : List Token}

/-- The token that a line shows. -/
def ofLine? (line : List Char) : Option Token := do
  let shown ← "Type: ".toList.isPrefixOf? line
  let kind ← Kind.ofLabel? (String.ofList (shown.takeWhile (· != ',')))
  let lexeme ← ", lexeme: ".toList.isPrefixOf? (shown.dropWhile (· != ','))
  return ⟨kind, lexeme⟩

/-- The line of a token is read back as the token. -/
theorem ofLine?_line (t : Token) : ofLine? t.line.toList = some t := by
  have hlabel : ∀ c ∈ t.kind.label.toList, (c != ',') = true := by
    simpa using t.kind.ne_comma_of_mem_label
  have hcomma : ∀ c, (", lexeme: ".toList ++ t.lexeme).head? = some c → (c != ',') = false := by
    intro c hc
    obtain rfl : ',' = c := Option.some.inj hc
    decide
  rw [ofLine?, toList_line, List.isPrefixOf?_eq_some_iff_append_eq.mpr rfl]
  simp only [Option.bind_eq_bind, Option.bind_some, takeWhile_append_eq hlabel hcomma,
    dropWhile_append_eq hlabel hcomma, String.ofList_toList, Kind.ofLabel?_label,
    List.isPrefixOf?_eq_some_iff_append_eq.mpr rfl]
  rfl

/-- The tokens that lines begin with, up to the end of a line of the calculator. -/
def ofLines : List (List Char) → List Token
  | [] => []
  | line :: lines =>
    match ofLine? line with
    | some t => if t.kind = .eof then [t] else t :: ofLines lines
    | none => []

/-- The tokens of a line are read from the lines that show them, whatever comes after. -/
theorem ofLines_append (h : ∀ t ∈ ts, t.kind ≠ .eof) (more : List (List Char)) :
    ofLines ((ts ++ [endOfLine]).map (·.line.toList) ++ more) = ts ++ [endOfLine] := by
  induction ts with
  | nil =>
      show ofLines (endOfLine.line.toList :: more) = _
      rw [ofLines, ofLine?_line]
      rfl
  | cons t ts ih =>
      obtain ⟨ht, hts⟩ := List.forall_mem_cons.mp h
      show ofLines (t.line.toList :: ((ts ++ [endOfLine]).map (·.line.toList) ++ more)) = _
      rw [ofLines, ofLine?_line]
      simp only [if_neg ht, ih hts]
      rfl

end Token

namespace CommandLine

variable {lines : List String}

theorem toList_written (lines : List String) :
    (written lines).toList = (lines.map String.toList).flatMap (· ++ ['\n']) := by
  simp [written, String.toList_join, List.flatMap_map]

/-- Lines without line breaks are found again in the text that is written. -/
theorem splitLines_written (h : ∀ line ∈ lines, Unbroken line.toList) :
    splitLines (written lines).toList = lines.map String.toList := by
  rw [toList_written]
  exact splitLines_flatMap (by simpa using h)

/-! ## an evaluation that writes all its lines -/

/-- The flags of an evaluation as lines, with its tokens and its expression. -/
def allLines (policy : Policy) : EvalFlags := ⟨false, true, true, policy⟩

/-- The line that shows the expression of a line, if it has one. -/
def treeLines : Except Reading.Fault Expr → List String
  | .ok e => [e.render]
  | .error _ => []

/-- What an evaluation writes with all its lines. -/
def linesOf (policy : Policy) (text : List Char) : List String :=
  (Line.tokens policy.settings text).map Token.line ++
    treeLines (Line.read policy.settings text) ++
    [outcomeLine (Line.evaluate policy.settings text)]

/-- With its tokens and its tree the evaluation prints the lines, one after another. -/
theorem output_runEval_allLines (policy : Policy) (text : List Char) :
    (runEval (allLines policy) text).output = written (linesOf policy text) := by
  have hparts : ∀ ts tree, partLines (allLines policy) ts tree =
      ts.map Token.line ++ treeLines tree := by
    intro ts tree
    cases tree <;> rfl
  show written (partLines (allLines policy) _ _ ++ [_]) = _
  rw [hparts]
  rfl

theorem unbroken_outcomeLine (s : Settings) (text : List Char) :
    Unbroken (outcomeLine (Line.evaluate s text)).toList := by
  cases h : Line.evaluate s text with
  | ok x =>
      show Unbroken (String.ofList (Decimal.display x)).toList
      rw [String.toList_ofList]
      exact Decimal.unbroken_display x
  | error f =>
      show Unbroken ("Invalid Expression: " ++ f.message).toList
      rw [String.toList_append, unbroken_append]
      exact ⟨by decide +kernel, Line.unbroken_message h⟩

theorem unbroken_treeLines {s : Settings} {text : List Char} :
    ∀ line ∈ treeLines (Line.read s text), Unbroken line.toList := by
  cases h : Line.read s text with
  | ok e =>
      intro line hline
      rw [List.mem_singleton.mp hline, Expr.toList_render]
      exact Expr.unbroken_rendered (Line.isLexical_of_read h)
  | error f => exact List.forall_mem_nil _

/-- No line that is printed holds a line break. -/
theorem unbroken_linesOf (policy : Policy) (text : List Char) :
    ∀ line ∈ linesOf policy text, Unbroken line.toList := by
  rw [linesOf, List.forall_mem_append, List.forall_mem_append, List.forall_mem_map,
    List.forall_mem_singleton]
  exact ⟨⟨fun t ht => Token.unbroken_line (Line.unbroken_of_mem_tokens ht), unbroken_treeLines⟩,
    unbroken_outcomeLine _ text⟩

/-- The tokens are read from the lines of the output. -/
theorem ofLines_output (policy : Policy) (text : List Char) :
    Token.ofLines (splitLines (runEval (allLines policy) text).output.toList) =
      Line.tokens policy.settings text := by
  obtain ⟨before, hts, hv⟩ := (cuts_tokensOf policy.settings.trailingDot text).exists_isValid
  have hne : ∀ t ∈ before, t.kind ≠ .eof := fun t ht => Cursor.ne_eof_of_isValid (hv t ht)
  rw [output_runEval_allLines, splitLines_written (unbroken_linesOf policy text), linesOf,
    List.append_assoc, List.map_append, List.map_map, Line.tokens, hts]
  exact Token.ofLines_append hne _

/-- Different tokens have different lines. -/
theorem map_line_injective : Function.Injective (List.map Token.line) := by
  refine List.map_injective_iff.mpr fun t u h => ?_
  have hline : Token.ofLine? t.line.toList = Token.ofLine? u.line.toList := by rw [h]
  rwa [Token.ofLine?_line, Token.ofLine?_line, Option.some_inj] at hline

end CommandLine

end LineCalc
