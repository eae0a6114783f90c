import LineCalc.Expr.Written
import LineCalc.Proofs.Cutting.Signs
import LineCalc.Proofs.Line.Derived
import LineCalc.Proofs.Reading.Acceptance

/-!
# LineCalc.Proofs.Line.Written

Expressions written as lines and read back.  Every expression has a rank of
the grammar of its own, and `Expr.written` puts an operand between parentheses
exactly where its rank is looser than the rank of its place.  So the tokens
of the written line derive the expression (`Expr.derives_tokens`), and where
other tokens derive it they have at least as many parentheses
(`Expr.opened_tokens_le`): `Line.read_written`.
-/

namespace LineCalc

open Text

variable {depth : Nat} {own place : Rank} {ts : List Token} {trailingDot : Bool} {e : Expr}

/-! ## ranks -/

namespace Rank

/-- How loosely a rank binds. -/
def looseness : Rank → Nat
  | primary => 0
  | unary => 1
  | multiplication => 2
  | addition => 3

/-- No rank binds more loosely than a sum. -/
theorem looseness_le_addition (rank : Rank) : rank.looseness ≤ addition.looseness := by
  cases rank <;> decide

end Rank

/-- What is of a rank is of every looser one. -/
theorem Derives.loosen (h : Derives depth own ts e) (hle : own.looseness ≤ place.looseness) :
    Derives depth place ts e := by
  have toUnary : Derives depth .primary ts e → Derives depth .unary ts e := .unsigned
  have toMultiplication : Derives depth .unary ts e → Derives depth .multiplication ts e := .factor
  have toAddition : Derives depth .multiplication ts e → Derives depth .addition ts e := .term
  cases own <;> cases place <;> grind [Rank.looseness]

namespace Operator

/-- The rank of the expressions that an operator joins, with one of the same rank on its left. -/
def rank (o : Operator) : Rank := if o.isProduct then .multiplication else .addition

/-- The rank of what stands on the right of an operator. -/
def rightRank (o : Operator) : Rank := if o.isProduct then .unary else .multiplication

/-- The operands of an operator's rank are of the rank to its right. -/
theorem operand?_rank (o : Operator) : o.rank.operand? = some o.rightRank := by cases o <;> rfl

/-- The operators of a product are of its rank, with signed operands. -/
theorem ranks_of_multiplicative? {k : Kind} {o : Operator} (h : k.multiplicative? = some o) :
    o.rank = .multiplication ∧ o.rightRank = .unary := by
  cases k <;> cases h <;> decide

/-- The operators of a sum are of its rank, with products as operands. -/
theorem ranks_of_additive? {k : Kind} {o : Operator} (h : k.additive? = some o) :
    o.rank = .addition ∧ o.rightRank = .multiplication := by
  cases k <;> cases h <;> decide

/-- An operator is read at its own rank. -/
theorem operator?_kind_of_rank (o : Operator) : o.rank.operator? o.kind = some o := by
  cases o <;> rfl

end Operator

namespace Expr

/-- The rank of an expression that is written without parentheses around it. -/
def rank : Expr → Rank
  | literal .. => .primary
  | signed .. => .unary
  | binary o _ _ => o.rank

/-! ## the tokens of a written line -/

/-- The tokens of an expression in a place of a rank: between parentheses if its own is looser. -/
def wrapTokens (place own : Rank) (ts : List Token) : List Token :=
  if place.looseness < own.looseness then Kind.openParen.token :: (ts ++ [Kind.closeParen.token])
  else ts

/-- The tokens of an expression with parentheses where it needs them. -/
def tokens : Expr → List Token
  | literal _ lexeme => [⟨.number, lexeme⟩]
  | signed s e => s.kind.token :: wrapTokens .primary e.rank e.tokens
  | binary o l r =>
    wrapTokens o.rank l.rank l.tokens ++ o.kind.token :: wrapTokens o.rightRank r.rank r.tokens

theorem wrapTokens_self (own : Rank) (ts : List Token) : wrapTokens own own ts = ts :=
  if_neg (Nat.lt_irrefl _)

/-- What is no number is looser than a place for one. -/
theorem not_isLiteral_eq (e : Expr) :
    (!e.isLiteral) = decide (Rank.primary.looseness < e.rank.looseness) := by
  rcases e with _ | _ | ⟨o, _, _⟩
  · rfl
  · rfl
  · cases o <;> rfl

/-- A left operand is wrapped where it is looser than the operator. -/
theorem wrapsLeft_eq (o : Operator) (e : Expr) :
    wrapsLeft o e = decide (o.rank.looseness < e.rank.looseness) := by
  rcases e with _ | _ | ⟨p, _, _⟩
  · cases o <;> rfl
  · cases o <;> rfl
  · cases o <;> cases p <;> rfl

/-- A right operand is wrapped where it is looser than the rank to the right. -/
theorem wrapsRight_eq (o : Operator) (e : Expr) :
    wrapsRight o e = decide (o.rightRank.looseness < e.rank.looseness) := by
  rcases e with _ | _ | ⟨p, _, _⟩
  · cases o <;> rfl
  · cases o <;> rfl
  · cases o <;> cases p <;> rfl

theorem lexemes_wrapTokens (place own : Rank) (ts : List Token) :
    lexemes (wrapTokens place own ts) =
      wrap (decide (place.looseness < own.looseness)) (lexemes ts) := by
  unfold wrapTokens wrap
  split <;> simp [*, lexemes, Kind.token, Kind.symbol]

/-- The tokens hold the text. -/
theorem lexemes_tokens (e : Expr) : lexemes e.tokens = e.written := by
  induction e with
  | literal v lexeme => simp [tokens, written, lexemes]
  | signed s e ih =>
      rw [tokens, lexemes_cons, lexemes_wrapTokens, ih, written, not_isLiteral_eq]
      rfl
  | binary o l r ihl ihr =>
      have happend : ∀ ts us : List Token, lexemes (ts ++ us) = lexemes ts ++ lexemes us :=
        fun ts us => List.flatMap_append
      rw [tokens, happend, lexemes_cons, lexemes_wrapTokens, lexemes_wrapTokens, ihl, ihr, written,
        wrapsLeft_eq, wrapsRight_eq, List.append_assoc]
      rfl

/-! ## the expression that they derive -/

/-- The numbers of an expression have lexemes of numbers, and the values that these are read as. -/
def IsLexical (trailingDot : Bool) : Expr → Prop
  | literal v lexeme => isNumber trailingDot lexeme = true ∧ Decimal.numeral? lexeme = some v
  | signed _ e => e.IsLexical trailingDot
  | binary _ l r => l.IsLexical trailingDot ∧ r.IsLexical trailingDot

theorem isValid_of_mem_wrapTokens {t : Token}
    (hts : ∀ t ∈ ts, t.isValid trailingDot = true) (ht : t ∈ wrapTokens place own ts) :
    t.isValid trailingDot = true := by
  unfold wrapTokens at ht
  split at ht
  · simp only [List.mem_cons, List.mem_append, List.not_mem_nil, or_false] at ht
    obtain rfl | ht | rfl := ht
    · rfl
    · exact hts t ht
    · rfl
  · exact hts t ht

/-- The tokens of a lexical expression are tokens of a scan. -/
theorem isValid_of_mem_tokens (h : e.IsLexical trailingDot) :
    ∀ t ∈ e.tokens, t.isValid trailingDot = true := by
  induction e with
  | literal v lexeme => simpa [tokens, Token.isValid] using h.1
  | signed s e ih =>
      intro t ht
      obtain rfl | ht := List.mem_cons.mp ht
      · cases s <;> rfl
      · exact isValid_of_mem_wrapTokens (ih h) ht
  | binary o l r ihl ihr =>
      intro t ht
      simp only [tokens, List.mem_append, List.mem_cons] at ht
      obtain ht | rfl | ht := ht
      · exact isValid_of_mem_wrapTokens (ihl h.1) ht
      · cases o <;> rfl
      · exact isValid_of_mem_wrapTokens (ihr h.2) ht

/-- Tokens that derive an expression of its own rank derive it in any place, with parentheses where
they are needed. -/
theorem derives_wrapTokens (h : Derives depth own ts e) :
    Derives (depth + (decide (place.looseness < own.looseness)).toNat) place
      (wrapTokens place own ts) e := by
  unfold wrapTokens
  split
  · next hlt =>
    rw [decide_eq_true hlt]
    have hgroup : Derives (depth + 1) .primary
        (Kind.openParen.token :: ts ++ [Kind.closeParen.token]) e :=
      .parentheses rfl rfl (h.loosen own.looseness_le_addition)
    exact hgroup.loosen (Nat.zero_le _)
  · next hle =>
    rw [decide_eq_false hle]
    exact h.loosen (Nat.le_of_not_lt hle)

/-- The tokens of an expression derive it, at the depth of its nesting. -/
theorem derives_tokens (h : e.IsLexical trailingDot) :
    Derives e.nesting e.rank e.tokens e := by
  induction e with
  | literal v lexeme =>
      have hvalue : Token.value ⟨.number, lexeme⟩ = .ok v := by simp [Token.value, h.2]
      exact .number rfl hvalue
  | signed s e ih =>
      rw [nesting, not_isLiteral_eq]
      exact .signed (Kind.sign?_kind s) (derives_wrapTokens (ih h))
  | binary o l r ihl ihr =>
      rw [nesting, wrapsLeft_eq, wrapsRight_eq]
      have hl : Derives _ o.rank _ l := derives_wrapTokens (ihl h.1)
      have hr : Derives _ o.rightRank _ r := derives_wrapTokens (ihr h.2)
      exact .join o.operator?_kind_of_rank o.operand?_rank (hl.mono (Nat.le_max_left ..))
        (hr.mono (Nat.le_max_right ..))

/-! ## no fewer parentheses -/

/-- Wrapping opens one parenthesis. -/
theorem opened_wrapTokens (place own : Rank) (ts : List Token) :
    opened (wrapTokens place own ts) =
      opened ts + if place.looseness < own.looseness then 1 else 0 := by
  unfold wrapTokens
  split <;> simp [opened, Kind.token]

/-- In a tighter place an expression has no fewer parentheses. -/
theorem opened_wrapTokens_le {tighter : Rank} (hle : tighter.looseness ≤ place.looseness) :
    opened (wrapTokens place own ts) ≤ opened (wrapTokens tighter own ts) := by
  rw [opened_wrapTokens, opened_wrapTokens]
  grind

theorem opened_tokens_signed (s : Sign) (e : Expr) :
    opened (signed s e).tokens = opened (wrapTokens .primary e.rank e.tokens) := by
  have hk : s.kind.token.kind ≠ .openParen := (Kind.not_paren_of_sign? (Kind.sign?_kind s)).1
  rw [tokens, opened_cons, if_neg hk, Nat.add_zero]

theorem opened_tokens_binary (o : Operator) (l r : Expr) :
    opened (binary o l r).tokens = opened (wrapTokens o.rank l.rank l.tokens) +
      opened (wrapTokens o.rightRank r.rank r.tokens) := by
  have hk : o.kind.token.kind ≠ .openParen :=
    (Kind.not_paren_of_operator? (Kind.operator?_kind o)).1
  rw [tokens, opened_append, opened_cons, if_neg hk, Nat.add_zero]

/-- Of all the tokens that derive an expression in a place, those of the written line have the
fewest parentheses. -/
theorem opened_tokens_le (h : Derives depth place ts e) :
    opened (wrapTokens place e.rank e.tokens) ≤ opened ts := by
  induction h with
  | number _ _ =>
      rw [rank, wrapTokens_self]
      simp [tokens, opened]
  | @parentheses _ opening closing ts e ho hc _ ih =>
      have hinner : opened (opening :: ts ++ [closing]) = opened ts + 1 := by
        simp [opened, ho, hc]
      rw [hinner]
      rw [opened_wrapTokens] at ih ⊢
      split <;> omega
  | unsigned _ ih => exact Nat.le_trans (opened_wrapTokens_le (by decide)) ih
  | factor _ ih => exact Nat.le_trans (opened_wrapTokens_le (by decide)) ih
  | term _ ih => exact Nat.le_trans (opened_wrapTokens_le (by decide)) ih
  | @signed _ t s ts e hs _ ih =>
      have hk := Kind.not_paren_of_sign? hs
      rw [rank, wrapTokens_self, opened_tokens_signed, opened_cons, if_neg hk.1]
      exact ih
  | @multiply _ t o ts us l r _ ho _ ihl ihr =>
      have hk := Kind.not_paren_of_operator? (Kind.operator?_of_multiplicative? ho)
      obtain ⟨hrank, hright⟩ := Operator.ranks_of_multiplicative? ho
      rw [rank, hrank, wrapTokens_self, opened_tokens_binary, hrank, hright, opened_append,
        opened_cons, if_neg hk.1]
      exact Nat.add_le_add ihl ihr
  | @add _ t o ts us l r _ ho _ ihl ihr =>
      have hk := Kind.not_paren_of_operator? (Kind.operator?_of_additive? ho)
      obtain ⟨hrank, hright⟩ := Operator.ranks_of_additive? ho
      rw [rank, hrank, wrapTokens_self, opened_tokens_binary, hrank, hright, opened_append,
        opened_cons, if_neg hk.1]
      exact Nat.add_le_add ihl ihr

end Expr

/-! ## lines -/

namespace Line

variable {s : Settings} {text : List Char}

/-- The written line is scanned as the tokens of the expression. -/
theorem tokens_written (h : e.IsLexical s.trailingDot) :
    tokens s e.written = e.tokens ++ [.endOfLine] := by
  rw [← e.lexemes_tokens]
  exact (e.derives_tokens h).tokensOf_lexemes (Expr.isValid_of_mem_tokens h)

/-- The parentheses that open in a line are as many as its tokens. -/
theorem opened_tokens (s : Settings) (text : List Char) :
    opened (tokens s text) = text.count '(' :=
  countP_tokensOf rfl (by decide) text

/-- No line that is read as the expression has fewer parentheses than the written one. -/
theorem count_written_le (h : e.IsLexical s.trailingDot) (hread : read s text = .ok e) :
    e.written.count '(' ≤ text.count '(' := by
  have hd := (readTokens_eq_ok_iff (isLine_tokensOf s.trailingDot text)).mp hread
  calc
    e.written.count '(' = opened e.tokens := by
      rw [← opened_tokens s, tokens_written h, opened_append]
      rfl
    _ ≤ opened (Expr.wrapTokens .addition e.rank e.tokens) := by
      rw [Expr.opened_wrapTokens]
      exact Nat.le_add_right _ _
    _ ≤ opened (beforeEnd (tokens s text)) := Expr.opened_tokens_le hd
    _ ≤ opened (tokens s text) := (List.takeWhile_sublist _).countP_le
    _ = text.count '(' := opened_tokens s text

/-- Whatever expression is written as a line, if its parentheses are nested no deeper than the
settings allow, it is what the line is read as; and no line that is read as the expression has
fewer parentheses. -/
theorem read_written (s : Settings) (e : Expr) (h : e.IsLexical s.trailingDot)
    (hn : NestsWithin s.limit (tokens s e.written)) :
    read s e.written = .ok e ∧
      ∀ text, read s text = .ok e → e.written.count '(' ≤ text.count '(' := by
  rw [tokens_written h] at hn
  have hd : Derives s.limit .addition e.tokens e :=
    (Expr.derives_tokens h |>.narrow hn.left).loosen e.rank.looseness_le_addition
  refine ⟨?_, fun text => count_written_le h⟩
  rw [← e.lexemes_tokens]
  exact read_lexemes hd (Expr.isValid_of_mem_tokens h)

/-- A sign under a sign, a difference on the right of a difference, and a product on the right of
a quotient. -/
def groupedExpr : Expr :=
  .binary .sub
    (.binary .mul (number ['2']) (.signed .minus (.signed .minus (number ['5']))))
    (.binary .sub (number ['1'])
      (.binary .div (number ['3']) (.binary .mul (number ['4']) (number ['5', '.']))))
where
  number (lexeme : List Char) : Expr := .literal ((Decimal.numeral? lexeme).getD 0) lexeme

/-- An expression with wrapped operands on either side is read back from its line. -/
theorem read_groupedExpr :
    groupedExpr.IsLexical Settings.standard.trailingDot ∧
      NestsWithin Settings.standard.limit (tokens Settings.standard groupedExpr.written) ∧
      groupedExpr.written = "2*-(-5)-(1-3/(4*5.))".toList ∧
      read Settings.standard groupedExpr.written = .ok groupedExpr := by
  have number : ∀ lexeme, isNumber true lexeme = true →
      (groupedExpr.number lexeme).IsLexical true := by
    intro lexeme hn
    obtain ⟨x, hx⟩ := Decimal.exists_numeral hn
    exact ⟨hn, by rw [hx]; rfl⟩
  have h : groupedExpr.IsLexical Settings.standard.trailingDot :=
    ⟨⟨number _ rfl, number _ rfl⟩, number _ rfl, number _ rfl, number _ rfl, number _ rfl⟩
  have hn : NestsWithin Settings.standard.limit (tokens Settings.standard groupedExpr.written) := by
    rw [tokens_written h]
    decide
  exact ⟨h, hn, by decide, (read_written Settings.standard groupedExpr h hn).1⟩

end Line

end LineCalc
