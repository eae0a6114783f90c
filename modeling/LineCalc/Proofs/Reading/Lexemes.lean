import LineCalc.Proofs.Cutting.Scripts
import LineCalc.Proofs.Evaluation.Tasks
import LineCalc.Proofs.Reading.Verdict

/-!
# LineCalc.Proofs.Reading.Lexemes

Tokens that are given other lexemes.  The grammar looks at their kinds alone,
so with lexemes of the same values they are read as the expression with these
lexemes in it, or fail to be one at the same place (`readTokens_mapLexeme`);
and such an expression has the same value, or is refused the same division:
`Expr.evaluate_mapLexeme`.
-/

namespace LineCalc

variable {f : List Char → List Char} {limit depth : Nat} {rank : Rank} {ts : List Token}
variable {e : Expr} {t : Token} {g : GrammarFault}

/-- A change of lexemes that no numeral notices. -/
structure KeepsValues (f : List Char → List Char) : Prop where
  numeral : ∀ cs, Decimal.numeral? (f cs) = Decimal.numeral? cs
  /-- The end of the line stays what it is. -/
  nil : f [] = []

/-- Writing the digits in ASCII keeps the values of numbers. -/
theorem keepsValues_inAscii : KeepsValues Text.inAscii := ⟨Decimal.numeral?_inAscii, rfl⟩

/-- A number token keeps its value when its lexeme is mapped. -/
theorem Token.value_mapLexeme {x : Float} (hf : KeepsValues f) (h : t.value = .ok x) :
    (t.mapLexeme f).value = .ok x := by
  unfold value at h ⊢
  rw [mapLexeme, hf.numeral]
  split at h
  · next hk =>
    rw [if_pos hk]
    cases hx : Decimal.numeral? t.lexeme with
    | none => simp [hx] at h
    | some y => simpa [hx] using h
  · cases h

/-- Tokens with values keep them. -/
theorem Readable.mapLexeme (hf : KeepsValues f) (h : Readable ts) :
    Readable (ts.map (Token.mapLexeme f)) := by
  intro u hu hk
  obtain ⟨t, ht, rfl⟩ := List.mem_map.mp hu
  obtain ⟨x, hx⟩ := h t ht hk
  exact ⟨x, Token.value_mapLexeme hf hx⟩

/-- A line stays one when its lexemes are mapped. -/
theorem isLine_mapLexeme (f : List Char → List Char) (ts : List Token) :
    Reading.isLine (ts.map (Token.mapLexeme f)) = Reading.isLine ts := by
  rw [Reading.isLine, List.getLast?_map, Option.any_map]
  rfl

/-! ## expressions -/

namespace Expr

/-- An expression with its lexemes mapped. -/
def mapLexeme (f : List Char → List Char) : Expr → Expr
  | literal v lexeme => literal v (f lexeme)
  | signed s e => signed s (e.mapLexeme f)
  | binary o l r => binary o (l.mapLexeme f) (r.mapLexeme f)

end Expr

/-- The refusal of an evaluation with the lexemes of its node mapped. -/
def Stop.mapLexeme (f : List Char → List Char) : Stop → Stop
  | zeroDivision node => zeroDivision (node.mapLexeme f)
  | unbalanced node => unbalanced (node.mapLexeme f)

namespace Expr

/-- No lexeme has a part in a value. -/
theorem denote_mapLexeme (a : Arithmetic) (d : Division) (e : Expr) :
    (e.mapLexeme f).denote a d = (e.denote a d).mapError (Stop.mapLexeme f) := by
  induction e with
  | literal v lexeme => rfl
  | signed s e ih =>
      rw [mapLexeme, denote, denote, ih]
      cases e.denote a d <;> rfl
  | binary o l r ihl ihr =>
      rw [mapLexeme, denote, denote, ihl, ihr]
      cases l.denote a d with
      | error stop => rfl
      | ok x =>
          cases r.denote a d with
          | error stop => rfl
          | ok y =>
              show (if a.refuses d o y then _ else _) = Except.mapError _ (if _ then _ else _)
              split <;> rfl

/-- Evaluation looks at no lexeme, but for the node that a refusal shows. -/
theorem evaluate_mapLexeme (d : Division) (e : Expr) :
    (e.mapLexeme f).evaluate d = (e.evaluate d).mapError (Stop.mapLexeme f) := by
  simp only [evaluate, evaluateWith_eq_denote, denote_mapLexeme]

end Expr

/-- Tokens with other lexemes derive the expression with these lexemes in it. -/
theorem Derives.mapLexeme (hf : KeepsValues f) (h : Derives depth rank ts e) :
    Derives depth rank (ts.map (Token.mapLexeme f)) (e.mapLexeme f) := by
  induction h with
  | number hk hv => exact .number hk (Token.value_mapLexeme hf hv)
  | parentheses ho hc _ ih =>
      rw [List.map_append, List.map_cons, List.map_singleton]
      exact .parentheses ho hc ih
  | unsigned _ ih => exact .unsigned ih
  | signed hs _ ih => exact .signed hs ih
  | factor _ ih => exact .factor ih
  | multiply _ ho _ ihl ihr =>
      rw [List.map_append, List.map_cons]
      exact .multiply ihl ho ihr
  | term _ ih => exact .term ih
  | add _ ho _ ihl ihr =>
      rw [List.map_append, List.map_cons]
      exact .add ihl ho ihr

/-! ## faults -/

/-- A fault of the same kind at other tokens. -/
def GrammarFault.map (m : Token → Token) : GrammarFault → GrammarFault
  | invalid t => invalid (m t)
  | tooDeep t => tooDeep (m t)
  | unclosed previous t => unclosed (m previous) (m t)
  | leftOver t => leftOver (m t)

namespace Counter

/-- A move of the counter with the tokens of its fault mapped. -/
def Move.map (m : Token → Token) : Move → Move
  | reject g => reject (g.map m)
  | accept => accept
  | next expecting depth => next expecting depth

/-- The machine moves by the kind of a token, and names it where it rejects it. -/
theorem move_mapLexeme (f : List Char → List Char) (limit depth : Nat) (previous t : Token)
    (expecting : Expecting) :
    move limit depth (previous.mapLexeme f) (t.mapLexeme f) expecting =
      (move limit depth previous t expecting).map (Token.mapLexeme f) := by
  have hkind : (t.mapLexeme f).kind = t.kind := rfl
  cases expecting with
  | operand | signedOperand =>
      simp only [move, moveOperand, hkind]
      cases t.kind with
      | openParen =>
          show (if depth < limit then _ else _) = Move.map _ (if depth < limit then _ else _)
          split <;> rfl
      | _ => rfl
  | operator =>
      simp only [move, moveOperator, hkind]
      cases t.kind <;> cases depth <;> rfl

theorem verdict_mapLexeme (hf : KeepsValues f) (limit : Nat) (expecting : Expecting) (depth : Nat)
    (previous : Token) (ts : List Token) :
    verdict limit expecting depth (previous.mapLexeme f) (ts.map (Token.mapLexeme f)) =
      (verdict limit expecting depth previous ts).mapError
        (GrammarFault.map (Token.mapLexeme f)) := by
  have hend : Token.endOfLine.mapLexeme f = Token.endOfLine := congrArg (Token.mk .eof) hf.nil
  induction ts generalizing expecting depth previous with
  | nil =>
      rw [List.map_nil, verdict, verdict, ← hend, move_mapLexeme, hend]
      cases move limit depth previous .endOfLine expecting <;> rfl
  | cons t ts ih =>
      rw [List.map_cons, verdict, verdict, move_mapLexeme]
      cases move limit depth previous t expecting with
      | reject g => rfl
      | accept => rfl
      | next expecting depth => exact ih expecting depth t

/-- The counter finds the same fault at the image of its token. -/
theorem check_mapLexeme (hf : KeepsValues f) (limit : Nat) (ts : List Token) :
    check limit (ts.map (Token.mapLexeme f)) =
      (check limit ts).mapError (GrammarFault.map (Token.mapLexeme f)) := by
  have hend : Token.endOfLine.mapLexeme f = Token.endOfLine := congrArg (Token.mk .eof) hf.nil
  rw [check, check, ← verdict_mapLexeme hf, hend]

end Counter

/-! ## lines -/

/-- What is read stays readable, and its lexemes are mapped. -/
theorem readTokens_mapLexeme (hf : KeepsValues f) (h : readTokens limit ts = .ok e) :
    readTokens limit (ts.map (Token.mapLexeme f)) = .ok (e.mapLexeme f) := by
  have hl := isLine_of_readTokens h (fun he => by cases he)
  have hd := ((readTokens_eq_ok_iff hl).mp h).mapLexeme hf
  refine (readTokens_eq_ok_iff ((isLine_mapLexeme f ts).trans hl)).mpr ?_
  rw [beforeEnd, List.takeWhile_map]
  exact hd

/-- Where reading fails by the grammar, it does so with other lexemes too, at the same token and
after the same one. -/
theorem readTokens_mapLexeme_error (hf : KeepsValues f) (hr : Readable ts)
    (h : readTokens limit ts = .error (.grammar g)) :
    readTokens limit (ts.map (Token.mapLexeme f)) =
      .error (.grammar (g.map (Token.mapLexeme f))) := by
  have hl := isLine_of_readTokens h (fun he => by cases he)
  refine (readTokens_error_iff_check ((isLine_mapLexeme f ts).trans hl) (hr.mapLexeme hf)).mpr ?_
  rw [Counter.check_mapLexeme hf, check_of_readTokens_error h]
  rfl

end LineCalc
