import LineCalc.Proofs.Cutting.Spaced
import LineCalc.Proofs.Line.Outcome
import LineCalc.Proofs.Reading.Derivation

/-!
# LineCalc.Proofs.Line.Derived

Lines made of the tokens of an expression.  In such tokens a number is never
followed by a number or an error (`Derives.isChain`), so nothing runs
together where they are written, and the line is read as the expression that
the tokens derive, with any blanks in front of each of them and at the end
(`Line.read_spaced`) or with none: `Line.read_lexemes`.
-/

namespace LineCalc

open Text

variable {depth : Nat} {rank : Rank} {ts us : List Token} {t : Token} {e : Expr}

/-! ## neighbours -/

/-- The token that a kind with a sign of its own is written as. -/
def Kind.token (k : Kind) : Token := ⟨k, k.symbol⟩

/-- A number follows no number, and nothing that is an error follows it. -/
def Alternates (t u : Token) : Prop := t.kind = .number → u.kind ≠ .number ∧ u.kind ≠ .error

/-- Nothing runs into what comes after a token that is no number. -/
theorem isChain_cons_of_ne_number (hk : t.kind ≠ .number) (h : ts.IsChain Alternates) :
    (t :: ts).IsChain Alternates :=
  h.cons fun _ _ hn => absurd hn hk

namespace Derives

/-- An operator between tokens and those of an operand after it. -/
theorem isChain_operator {o : Operator} (ho : t.kind.operator? = some o)
    (hts : ∀ vs : List Token, vs.IsChain Alternates →
      (∀ u ∈ vs.head?, u.kind ≠ .number ∧ u.kind ≠ .error) → (ts ++ vs).IsChain Alternates)
    (hus : us.IsChain Alternates) : (ts ++ t :: us).IsChain Alternates := by
  have hk := Kind.not_operand_of_operator? ho
  exact hts _ (isChain_cons_of_ne_number hk.1 hus) (by simpa using hk)

/-- The tokens of an expression keep apart, and so do those after it, if they begin with no
operand. -/
theorem isChain_append (h : Derives depth rank ts e) {us : List Token}
    (hus : us.IsChain Alternates) (hu : ∀ u ∈ us.head?, u.kind ≠ .number ∧ u.kind ≠ .error) :
    (ts ++ us).IsChain Alternates := by
  induction h generalizing us with
  | number _ _ => exact hus.cons fun u hmem _ => hu u hmem
  | @parentheses _ opening closing ts e ho hc _ ih =>
      have hclosing := isChain_cons_of_ne_number (t := closing) (by simp [hc]) hus
      have hinner := ih hclosing (by simp [hc])
      simpa using isChain_cons_of_ne_number (t := opening) (by simp [ho]) hinner
  | unsigned _ ih | factor _ ih | term _ ih => exact ih hus hu
  | signed hs _ ih =>
      exact isChain_cons_of_ne_number (Kind.not_operand_of_sign? hs).1 (ih hus hu)
  | multiply _ ho _ ihl ihr =>
      have ho := Kind.operator?_of_multiplicative? ho
      simpa using isChain_operator ho (fun _ => ihl) (ihr hus hu)
  | add _ ho _ ihl ihr =>
      have ho := Kind.operator?_of_additive? ho
      simpa using isChain_operator ho (fun _ => ihl) (ihr hus hu)

/-- In the tokens of an expression no number is followed by a number or an error. -/
theorem isChain (h : Derives depth rank ts e) : ts.IsChain Alternates := by
  simpa using h.isChain_append .nil (by simp)

end Derives

/-! ## lines -/

variable {trailingDot : Bool} {parts : List (List Char × Token)} {last : List Char}

/-- Whatever the blanks are, a line made of the tokens of an expression is cut into these tokens. -/
theorem Derives.tokensOf_spaced (h : Derives depth rank (parts.map Prod.snd) e)
    (hv : ∀ p ∈ parts, p.2.isValid trailingDot = true)
    (hb : ∀ p ∈ parts, p.1.all isBlank = true) (hl : last.all isBlank = true) :
    tokensOf trailingDot (spaced parts ++ last) = parts.map Prod.snd ++ [.endOfLine] := by
  have happ : parts.IsChain Apart :=
    ((List.isChain_map Prod.snd).mp h.isChain).imp fun p q hpq hk _ => hpq hk
  exact LineCalc.tokensOf_spaced happ hv hb hl

/-- A line that is cut into the tokens of an expression is read as the expression. -/
theorem Line.read_of_tokens {s : Settings} {text : List Char} (h : Derives s.limit .addition ts e)
    (ht : Line.tokens s text = ts ++ [.endOfLine]) : Line.read s text = .ok e := by
  refine (readTokens_eq_ok_iff (isLine_tokensOf s.trailingDot text)).mpr ?_
  show Derives s.limit .addition (beforeEnd (Line.tokens s text)) e
  rwa [ht, beforeEnd_append h.before_end rfl]

/-- A line of tokens that derive an expression is read as it, whatever blanks there are. -/
theorem Line.read_spaced {s : Settings} (h : Derives s.limit .addition (parts.map Prod.snd) e)
    (hv : ∀ p ∈ parts, p.2.isValid s.trailingDot = true)
    (hb : ∀ p ∈ parts, p.1.all isBlank = true) (hl : last.all isBlank = true) :
    Line.read s (spaced parts ++ last) = .ok e :=
  Line.read_of_tokens h (h.tokensOf_spaced hv hb hl)

/-- Tokens with no blanks in front of them are written as their lexemes. -/
theorem spaced_map_nil (ts : List Token) : spaced (ts.map fun t => ([], t)) = lexemes ts := by
  induction ts with
  | nil => rfl
  | cons t ts ih => simp [spaced, ih]

/-- The tokens of an expression with no blanks between them are cut apart again. -/
theorem Derives.tokensOf_lexemes (h : Derives depth rank ts e)
    (hv : ∀ t ∈ ts, t.isValid trailingDot = true) :
    tokensOf trailingDot (lexemes ts) = ts ++ [.endOfLine] := by
  have hparts : (ts.map fun t => (([] : List Char), t)).map Prod.snd = ts := by
    simp [Function.comp_def]
  have hlast : ([] : List Char).all isBlank = true := rfl
  have htokens := (hparts.symm ▸ h).tokensOf_spaced (by simpa using hv) (by simp) hlast
  rwa [spaced_map_nil, hparts, List.append_nil] at htokens

/-- The lexemes of tokens that derive an expression are read as it. -/
theorem Line.read_lexemes {s : Settings} (h : Derives s.limit .addition ts e)
    (hv : ∀ t ∈ ts, t.isValid s.trailingDot = true) : Line.read s (lexemes ts) = .ok e :=
  Line.read_of_tokens h (h.tokensOf_lexemes hv)

end LineCalc
