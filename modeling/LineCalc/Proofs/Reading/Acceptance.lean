import LineCalc.Proofs.Reading.Derivation
import LineCalc.Settings

/-!
# LineCalc.Proofs.Reading.Acceptance

What is accepted under given settings.  The limit that a reading goes by is
the depth that is set, but never more than `Settings.deepest`; on tokens that
are nested no deeper than that, the depth that is set is all that counts.

Parentheses are counted on the fronts of a list of tokens (`NestsWithin`).
The tokens of an expression close what they open (`Derives.balanced`), so a
front of an operand has as many parentheses open as its place in the whole
adds to it, and a derivation can be narrowed to the depth that its tokens
show: `Derives.narrow`.
-/

namespace LineCalc

variable {depth wider : Nat} {rank : Rank} {ts us : List Token} {t : Token} {e : Expr}

/-! ## nesting -/

/-- The number of parentheses that tokens open. -/
def opened (ts : List Token) : Nat := ts.countP (·.kind = .openParen)

/-- The number of parentheses that tokens close. -/
def closed (ts : List Token) : Nat := ts.countP (·.kind = .closeParen)

/-- At no place in the tokens are more than `depth` parentheses open. -/
def NestsWithin (depth : Nat) (ts : List Token) : Prop :=
  ∀ front, front <+: ts → opened front ≤ closed front + depth

instance (depth : Nat) (ts : List Token) : Decidable (NestsWithin depth ts) :=
  decidable_of_iff (∀ n ≤ ts.length, opened (ts.take n) ≤ closed (ts.take n) + depth) <| by
    constructor
    · intro h front hf
      have := h front.length hf.length_le
      rwa [← List.prefix_iff_eq_take.mp hf] at this
    · exact fun h n _ => h _ (List.take_prefix n ts)

@[simp] theorem opened_append (ts us : List Token) :
    opened (ts ++ us) = opened ts + opened us := List.countP_append

@[simp] theorem closed_append (ts us : List Token) :
    closed (ts ++ us) = closed ts + closed us := List.countP_append

theorem opened_cons (t : Token) (ts : List Token) :
    opened (t :: ts) = opened ts + if t.kind = .openParen then 1 else 0 := by
  simp [opened, List.countP_cons]

theorem closed_cons (t : Token) (ts : List Token) :
    closed (t :: ts) = closed ts + if t.kind = .closeParen then 1 else 0 := by
  simp [closed, List.countP_cons]

namespace Kind

theorem not_paren_of_sign? {k : Kind} {s : Sign} (h : k.sign? = some s) :
    k ≠ .openParen ∧ k ≠ .closeParen := by
  cases k <;> simp_all [sign?]

theorem not_paren_of_operator? {k : Kind} {o : Operator} (h : k.operator? = some o) :
    k ≠ .openParen ∧ k ≠ .closeParen := by
  cases k <;> simp_all [operator?, additive?, multiplicative?]

end Kind

/-- The tokens of an expression close the parentheses that they open. -/
theorem Derives.balanced (h : Derives depth rank ts e) : opened ts = closed ts := by
  induction h with
  | number hk _ => simp [opened, closed, hk]
  | parentheses ho hc _ ih => simp [opened_cons, closed_cons, ho, hc, ih]; simp [opened, closed]
  | unsigned _ ih | factor _ ih | term _ ih => exact ih
  | signed hs _ ih =>
      obtain ⟨h₁, h₂⟩ := Kind.not_paren_of_sign? hs
      simp [opened_cons, closed_cons, h₁, h₂, ih]
  | multiply _ ho _ ihl ihr =>
      obtain ⟨h₁, h₂⟩ := Kind.not_paren_of_operator? (Kind.operator?_of_multiplicative? ho)
      simp [opened_cons, closed_cons, h₁, h₂, ihl, ihr]
  | add _ ho _ ihl ihr =>
      obtain ⟨h₁, h₂⟩ := Kind.not_paren_of_operator? (Kind.operator?_of_additive? ho)
      simp [opened_cons, closed_cons, h₁, h₂, ihl, ihr]

namespace NestsWithin

/-- A front of tokens that nest within a depth does too. -/
theorem left (h : NestsWithin depth (ts ++ us)) : NestsWithin depth ts :=
  fun front hf => h front (hf.trans (List.prefix_append ts us))

/-- What follows tokens that close as many parentheses as they open is nested no deeper than the
whole. -/
theorem right (h : NestsWithin depth (ts ++ us)) (hb : opened ts = closed ts) :
    NestsWithin depth us := by
  intro front hf
  have := h (ts ++ front) ((List.prefix_append_right_inj ts).mpr hf)
  simp only [opened_append, closed_append] at this
  omega

/-- Behind a token that is no parenthesis the nesting is the same. -/
theorem tail (h : NestsWithin depth (t :: ts)) (hk : t.kind ≠ .openParen ∧ t.kind ≠ .closeParen) :
    NestsWithin depth ts :=
  @right depth [t] ts h (by simp [opened, closed, hk])

/-- Between a pair of parentheses there is one level less. -/
theorem inside {c : Token} (h : NestsWithin depth (t :: ts ++ [c])) (ho : t.kind = .openParen) :
    ∃ less, depth = less + 1 ∧ NestsWithin less ts := by
  have front : ∀ us, us <+: ts → opened us + 1 ≤ closed us + depth := by
    intro us hu
    have := h (t :: us) (List.cons_prefix_cons.mpr ⟨rfl, hu.trans (List.prefix_append ts [c])⟩)
    simpa [opened_cons, closed_cons, ho] using this
  have hpos : 1 ≤ depth := by simpa [opened, closed] using front [] List.nil_prefix
  refine ⟨depth - 1, by omega, fun us hu => ?_⟩
  have := front us hu
  omega

end NestsWithin

/-- A derivation needs no more room than its tokens are nested. -/
theorem Derives.narrow (h : Derives wider rank ts e) (hn : NestsWithin depth ts) :
    Derives depth rank ts e := by
  induction h generalizing depth with
  | number hk hv => exact .number hk hv
  | parentheses ho hc _ ih =>
      obtain ⟨less, rfl, hless⟩ := hn.inside ho
      exact .parentheses ho hc (ih hless)
  | unsigned _ ih => exact .unsigned (ih hn)
  | signed hs _ ih => exact .signed hs (ih (hn.tail (Kind.not_paren_of_sign? hs)))
  | factor _ ih => exact .factor (ih hn)
  | multiply hl ho _ ihl ihr =>
      have hk := Kind.not_paren_of_operator? (Kind.operator?_of_multiplicative? ho)
      exact .multiply (ihl hn.left) ho (ihr ((hn.right hl.balanced).tail hk))
  | term _ ih => exact .term (ih hn)
  | add hl ho _ ihl ihr =>
      have hk := Kind.not_paren_of_operator? (Kind.operator?_of_additive? ho)
      exact .add (ihl hn.left) ho (ihr ((hn.right hl.balanced).tail hk))

/-! ## under settings -/

/-- The limit of a setting is its depth, cut at the deepest. -/
theorem Settings.limit_eq {s : Settings} (h : depthOf? s.maxDepth = some depth) :
    s.limit = min depth deepest := by
  rw [limit, h, Option.getD_some]

/-- Under settings that allow parentheses to be nested `depth` deep, a line that is nested no
deeper than is ever read is accepted exactly if the grammar derives an expression from the tokens
before its end, and that expression is the answer; there is one at most. -/
theorem readTokens_eq_ok_iff_derives (s : Settings)
    (hs : Settings.depthOf? s.maxDepth = some depth) (hl : Reading.isLine ts = true)
    (hn : NestsWithin Settings.deepest (beforeEnd ts)) :
    (∀ e, readTokens s.limit ts = .ok e ↔ Derives depth .addition (beforeEnd ts) e) ∧
      ∀ e e', Derives depth .addition (beforeEnd ts) e →
        Derives depth .addition (beforeEnd ts) e' → e = e' := by
  refine ⟨fun e => ?_, fun e e' h h' => h.unique h'⟩
  have hlimit : s.limit = min depth Settings.deepest := by rw [Settings.limit, hs, Option.getD_some]
  rw [readTokens_eq_ok_iff hl, hlimit]
  constructor
  · exact fun h => h.mono (Nat.min_le_left _ _)
  · intro h
    obtain hle | hle := Nat.le_total depth Settings.deepest
    · rwa [Nat.min_eq_left hle]
    · rw [Nat.min_eq_right hle]
      exact h.narrow hn

/-- A sign before a group, and tokens after the end of the line that are not read. -/
def groupedLine : List Token :=
  [⟨.minus, ['-']⟩, ⟨.openParen, ['(']⟩, ⟨.number, ['1']⟩, ⟨.plus, ['+']⟩, ⟨.number, ['2']⟩,
   ⟨.closeParen, [')']⟩, ⟨.star, ['*']⟩, ⟨.number, ['3']⟩, .endOfLine, ⟨.closeParen, [')']⟩,
   .endOfLine]

/-- The tokens of a line with a group are read under the standard depth. -/
theorem readTokens_groupedLine :
    Settings.depthOf? Settings.standard.maxDepth = some 100 ∧ Reading.isLine groupedLine = true ∧
      NestsWithin Settings.deepest (beforeEnd groupedLine) ∧
      ∃ e, Derives 100 .addition (beforeEnd groupedLine) e ∧
        readTokens Settings.standard.limit groupedLine = .ok e := by
  have hl : Reading.isLine groupedLine = true := by decide
  have hn : NestsWithin Settings.deepest (beforeEnd groupedLine) := by decide
  have hsum : Derives 99 .addition
      [⟨.number, ['1']⟩, ⟨.plus, ['+']⟩, ⟨.number, ['2']⟩] _ :=
    .add (.term (.factor (.unsigned (.number rfl rfl)))) rfl
      (.factor (.unsigned (.number rfl rfl)))
  have hproduct : Derives 100 .addition (beforeEnd groupedLine) _ :=
    .term (.multiply (.factor (.signed rfl (.parentheses rfl rfl hsum))) rfl
      (.unsigned (.number rfl rfl)))
  exact ⟨rfl, hl, hn, _, hproduct,
    ((readTokens_eq_ok_iff_derives Settings.standard rfl hl hn).1 _).mpr hproduct⟩

end LineCalc
