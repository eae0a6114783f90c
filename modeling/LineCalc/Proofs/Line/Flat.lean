import LineCalc.Proofs.Evaluation.Reduction
import LineCalc.Proofs.Line.Derived
import LineCalc.Proofs.Line.Policies

/-!
# LineCalc.Proofs.Line.Flat

Lines without parentheses: operands, each a number with possibly a sign in
front, and operators between them.  Their tokens are an expression that leans
to the left (`FlatLine.derives_tokens`), whatever blanks there are, and its
value is that of the operands as a chain, reduced in two passes:
`Line.evaluate_flat`.
-/

namespace LineCalc

open Text

variable {trailingDot : Bool} {depth : Nat} {a : Arithmetic} {d : Division}

namespace Operator

/-- A product sign is read among factors. -/
theorem multiplicative?_kind {o : Operator} (h : o.isProduct = true) :
    o.kind.multiplicative? = some o := by
  cases o with
  | mul | div => rfl
  | add | sub => cases h

/-- A sum sign is read among terms. -/
theorem additive?_kind {o : Operator} (h : o.isProduct = false) :
    o.kind.additive? = some o := by
  cases o with
  | add | sub => rfl
  | mul | div => cases h

end Operator

/-! ## operands -/

/-- A number, with a sign in front or without one. -/
structure Operand (trailingDot : Bool) where
  sign? : Option Sign
  lexeme : List Char
  isNumber_lexeme : isNumber trailingDot lexeme = true

namespace Operand

variable (x : Operand trailingDot)

/-- The double that the lexeme stands for. -/
def magnitude : Float :=
  (Decimal.numeral? x.lexeme).get <| by
    obtain ⟨v, hv⟩ := Decimal.exists_numeral x.isNumber_lexeme
    rw [hv]
    rfl

/-- The number of an operand as a token. -/
def number : Token := ⟨.number, x.lexeme⟩

/-- The number of an operand as an expression. -/
def literal : Expr := .literal x.magnitude x.lexeme

/-- The tokens of an operand. -/
def tokens : List Token :=
  match x.sign? with
  | none => [x.number]
  | some s => [s.kind.token, x.number]

/-- The expression of an operand. -/
def expr : Expr :=
  match x.sign? with
  | none => x.literal
  | some s => .signed s x.literal

/-- The value of an operand, with its sign. -/
def value (a : Arithmetic) : Float :=
  match x.sign? with
  | none => x.magnitude
  | some s => a.sign s x.magnitude

theorem value_number : x.number.value = .ok x.magnitude := by
  have h : Decimal.numeral? x.lexeme = some x.magnitude := (Option.some_get _).symm
  simp [Token.value, number, h]

/-- The tokens of an operand derive its expression, at any depth. -/
theorem derives_tokens : Derives depth .unary x.tokens x.expr := by
  have hnumber : Derives depth .primary [x.number] x.literal := .number rfl x.value_number
  rw [tokens, expr]
  split
  · exact .unsigned hnumber
  · next s _ => exact .signed (Kind.sign?_kind s) hnumber

/-- The expression of an operand has its value. -/
theorem outcome?_expr : x.expr.outcome? a d = some (x.value a) := by
  rw [expr, value]
  split
  · rfl
  · rw [Expr.outcome?_signed]
    rfl

/-- The tokens of an operand are tokens of a scan. -/
theorem isValid_of_mem {t : Token} (ht : t ∈ x.tokens) : t.isValid trailingDot = true := by
  rw [tokens] at ht
  split at ht
  · obtain rfl := List.mem_singleton.mp ht
    exact x.isNumber_lexeme
  · next s _ =>
    simp only [List.mem_cons, List.not_mem_nil, or_false] at ht
    obtain rfl | rfl := ht
    · cases s <;> rfl
    · exact x.isNumber_lexeme

end Operand

/-! ## lines -/

/-- Operands with operators between them. -/
structure FlatLine (trailingDot : Bool) where
  first : Operand trailingDot
  rest : List (Operator × Operand trailingDot)

/-- A zero of either sign comes after a division sign. -/
def Chain.DividesByZero (c : Chain) : Prop :=
  ∃ y, (.div, y) ∈ c.rest ∧ (y.toBits = 0 ∨ y.toBits = 0x8000000000000000)

/-- The strict policy refuses a chain exactly if it divides by zero. -/
theorem Chain.reduce_strict_eq_none_iff_dividesByZero {c : Chain} :
    reduce .binary64 .strict c = none ↔ c.DividesByZero := by
  rw [reduce_strict_eq_none_iff, DividesByZero]
  simp only [Arithmetic.binary64, decide_eq_true_eq, Binary64.pattern_eq_zero_iff]

namespace FlatLine

variable (l : FlatLine trailingDot)

/-- The tokens of the operators and the operands after them. -/
def links (rest : List (Operator × Operand trailingDot)) : List Token :=
  rest.flatMap fun p => p.1.kind.token :: p.2.tokens

/-- The tokens of a line without parentheses. -/
def tokens : List Token := l.first.tokens ++ links l.rest

/-- The expression of a line without parentheses, which leans to the left. -/
def expr : Expr := .chained id l.first.expr (l.rest.map fun p => (p.1, p.2.expr))

/-- The values of the operands, with the operators between them. -/
def chain (a : Arithmetic) : Chain := ⟨l.first.value a, l.rest.map fun p => (p.1, p.2.value a)⟩

theorem isValid_token (o : Operator) : o.kind.token.isValid trailingDot = true := by
  cases o <;> rfl

/-- The tokens of the line are tokens of a scan. -/
theorem isValid_of_mem {t : Token} (ht : t ∈ l.tokens) : t.isValid trailingDot = true := by
  simp only [tokens, links, List.mem_append, List.mem_flatMap, List.mem_cons] at ht
  obtain ht | ⟨p, -, rfl | ht⟩ := ht
  · exact l.first.isValid_of_mem ht
  · exact isValid_token p.1
  · exact p.2.isValid_of_mem ht

/-- The expression after a sum, for which `place` stands with the tokens `front`, and the first
operands `ts` of a run, which are `e`. -/
theorem derives_chained (rest : List (Operator × Operand trailingDot)) {front ts : List Token}
    {place : Expr → Expr} {e : Expr}
    (hp : ∀ us f, Derives depth .multiplication us f →
      Derives depth .addition (front ++ us) (place f))
    (he : Derives depth .multiplication ts e) :
    Derives depth .addition (front ++ ts ++ links rest)
      (.chained place e (rest.map fun p => (p.1, p.2.expr))) := by
  induction rest generalizing front ts place e with
  | nil => simpa [links, Expr.chained] using hp ts e he
  | cons p rest ih =>
      obtain ⟨o, x⟩ := p
      have hx : Derives depth .unary x.tokens x.expr := x.derives_tokens
      have hlinks : front ++ ts ++ links ((o, x) :: rest) =
          front ++ (ts ++ o.kind.token :: x.tokens) ++ links rest := by
        simp [links]
      rw [List.map_cons, Expr.chained]
      cases ho : o.isProduct with
      | true =>
          rw [hlinks, if_pos rfl]
          exact ih hp (he.multiply (Operator.multiplicative?_kind ho) hx)
      | false =>
          have hp' : ∀ us f, Derives depth .multiplication us f →
              Derives depth .addition (front ++ (ts ++ [o.kind.token]) ++ us)
                (.binary o (place e) f) := by
            intro us f hf
            simpa using (hp ts e he).add (t := o.kind.token) (Operator.additive?_kind ho) hf
          rw [hlinks, if_neg (by simp)]
          simpa using ih hp' (.factor hx)

/-- The tokens of the line derive its expression, at any depth. -/
theorem derives_tokens : Derives depth .addition l.tokens l.expr := by
  have hterm : ∀ us f, Derives depth .multiplication us f →
      Derives depth .addition ([] ++ us) (id f) := fun _ _ => .term
  exact derives_chained l.rest hterm (.factor l.first.derives_tokens)

/-- The expression of the line has the value of its chain in two passes. -/
theorem outcome?_expr : l.expr.outcome? a d = Chain.reduce a d (l.chain a) := by
  have hv : (l.rest.map fun p => (p.1, p.2.expr)).map (fun p => (p.1, p.2.outcome? a d)) =
      (l.chain a).rest.map fun p => (p.1, some p.2) := by
    simp [chain, Operand.outcome?_expr]
  rw [expr, Chain.outcome?_chained _ _ hv id some (fun f => by simp), Operand.outcome?_expr]
  rfl

end FlatLine

namespace Line

variable {s : Settings} {parts : List (List Char × Token)} {last : List Char}

/-- Whatever the blanks are, the tokens of a line without parentheses are read as its expression. -/
theorem read_flat (l : FlatLine s.trailingDot) (hparts : parts.map Prod.snd = l.tokens)
    (hb : ∀ p ∈ parts, p.1.all isBlank = true) (hl : last.all isBlank = true) :
    Line.read s (spaced parts ++ last) = .ok l.expr := by
  have hvalid : ∀ p ∈ parts, p.2.isValid s.trailingDot = true := fun p hp =>
    l.isValid_of_mem (hparts ▸ List.mem_map_of_mem hp)
  exact read_spaced (hparts ▸ l.derives_tokens) hvalid hb hl

/-- A quotient in a sum, with signs, a bare point and blanks in some places. -/
def quotientLine : FlatLine Settings.standard.trailingDot where
  first := ⟨some .minus, ['1'], by decide⟩
  rest := [(.add, ⟨none, ['2', '.'], by decide⟩), (.div, ⟨some .plus, ['3', '.', '5'], by decide⟩),
    (.sub, ⟨some .minus, ['0'], by decide⟩)]

/-- The line ` -1+ 2./+ 3.5 --0` as tokens, each after its blanks. -/
def quotientParts : List (List Char × Token) :=
  [([' '], Kind.minus.token), ([], ⟨.number, ['1']⟩), ([], Kind.plus.token),
   (['\t', ' '], ⟨.number, ['2', '.']⟩), ([], Kind.slash.token), ([], Kind.plus.token),
   ([' '], ⟨.number, ['3', '.', '5']⟩), ([' '], Kind.minus.token), ([], Kind.minus.token),
   ([], ⟨.number, ['0']⟩)]

end Line

end LineCalc
