import LineCalc.Proofs.Binary64.Sign
import LineCalc.Proofs.Cutting.Spacing
import LineCalc.Proofs.Decimal.Rounding
import LineCalc.Proofs.Line.InOrder

/-!
# LineCalc.Proofs.Line.Rendered

The text of an expression with every sign and operator in front can be read in
one way.  A lexeme ends before a blank and before a parenthesis, and every
other text ends with the parenthesis of its own that closes; so an expression
and what comes after it are both known from their text together
(`Expr.rendered_append_inj`).  The values of the numbers are not in the text,
but each is that of its lexeme, and no `NaN`: `Line.render_eq_iff_same`.
-/

namespace LineCalc

open Text

variable {trailingDot trailingDot' : Bool} {e f : Expr} {x y lexeme lexeme' : List Char}

/-! ## the values of lexemes -/

/-- A number of an expression equals itself, since it is no `NaN`. -/
theorem Decimal.beq_self_of_numeral? {v : Float} (h : isNumber trailingDot lexeme = true)
    (hv : numeral? lexeme = some v) : (v == v) = true := by
  have hp : Pointed trailingDot isPlainDigit (lexeme.map plain) :=
    (pointed_of_isNumber h).map (fun _ => isPlainDigit_plain) plain_point
  obtain ⟨d, hd⟩ := exists_decimal hp
  obtain rfl : d.toDouble false = v :=
    Option.some.inj ((numeral?_of_decimal? hp hd).symm.trans hv)
  have hnan : (d.toDouble false).isNaN = false := Binary64.isNaN_ofPattern d.nearest_le_infinity
  rw [Float.beq_self_iff]
  simpa [Float.isNaN_eq_decide_eq_nan] using hnan

namespace Expr

/-- An expression that was read is the same as itself. -/
theorem same_self (he : e.IsLexical trailingDot) : e.same e = true := by
  induction e with
  | literal v lexeme => simp [same, Decimal.beq_self_of_numeral? he.1 he.2]
  | signed s e ih => simp [same, ih he]
  | binary o l r ihl ihr => simp [same, ihl he.1, ihr he.2]

/-- Of expressions of lines, those that are the same are equal. -/
theorem same_iff_eq (he : e.IsLexical trailingDot) (hf : f.IsLexical trailingDot') :
    e.same f = true ↔ e = f := by
  constructor
  · exact eq_of_same he hf
  · rintro rfl
    exact same_self he

end Expr

/-! ## where a text ends -/

/-- What may follow the text of an expression inside another: nothing, a blank or a parenthesis
that closes. -/
def Delimited (cs : List Char) : Prop := ∀ c, cs.head? = some c → c = ' ' ∨ c = ')'

/-- A lexeme ends before a blank. -/
theorem delimited_blank (cs : List Char) : Delimited (' ' :: cs) := by
  intro c hc
  exact .inl (Option.some.inj hc).symm

/-- A lexeme ends before a closing parenthesis. -/
theorem delimited_close (cs : List Char) : Delimited (')' :: cs) := by
  intro c hc
  exact .inr (Option.some.inj hc).symm

/-- A lexeme ends where its digits and its point end. -/
theorem lexeme_append_inj (h : isNumber trailingDot lexeme = true)
    (h' : isNumber trailingDot' lexeme' = true) (hx : Delimited x) (hy : Delimited y)
    (heq : lexeme ++ x = lexeme' ++ y) : lexeme = lexeme' ∧ x = y := by
  let p (c : Char) : Bool := isDigit c || c = '.'
  have inside : ∀ {dot cs}, isNumber dot cs = true → ∀ c ∈ cs, p c = true := by
    intro dot cs hn c hc
    simpa [p] using (pointed_of_isNumber hn).mem c hc
  have outside : ∀ {cs}, Delimited cs → ∀ c, cs.head? = some c → p c = false := by
    intro cs hcs c hc
    obtain rfl | rfl := hcs c hc <;> decide
  exact span_unique heq (inside h) (outside hx) (inside h') (outside hy)

/-- A lexeme does not begin as the text of any other expression does. -/
theorem lexeme_append_ne (h : isNumber trailingDot lexeme = true) :
    lexeme ++ x ≠ '(' :: y := by
  obtain ⟨d, ds, rfl, hd⟩ := (pointed_of_isNumber h).exists_cons
  intro heq
  obtain rfl : d = '(' := (List.cons.inj heq).1
  simp [show isDigit '(' = false by decide] at hd

/-! ## expressions by their text -/

/-- Kinds with one symbol are one kind. -/
theorem Kind.symbol_injective : Function.Injective Kind.symbol := by
  intro k k' h
  cases k <;> cases k' <;> first | rfl | cases h

namespace Sign

theorem kind_injective : Function.Injective Sign.kind := by
  intro s s' h
  cases s <;> cases s' <;> first | rfl | cases h

theorem length_symbol (s : Sign) : s.kind.symbol.length = 1 := by cases s <;> rfl

end Sign

namespace Operator

theorem kind_injective : Function.Injective Operator.kind := by
  intro o o' h
  cases o <;> cases o' <;> first | rfl | cases h

theorem length_symbol (o : Operator) : o.kind.symbol.length = 1 := by cases o <;> rfl

end Operator

namespace Expr

theorem rendered_signed_append (s : Sign) (e : Expr) (x : List Char) :
    (signed s e).rendered ++ x = '(' :: (s.kind.symbol ++ ' ' :: (e.rendered ++ ')' :: x)) := by
  simp [rendered]

theorem rendered_binary_append (o : Operator) (l r : Expr) (x : List Char) :
    (binary o l r).rendered ++ x =
      '(' :: (o.kind.symbol ++ ' ' :: (l.rendered ++ ' ' :: (r.rendered ++ ')' :: x))) := by
  simp [rendered]

/-- The sign or operator of two texts is the same, and so is what comes after it. -/
theorem symbol_append_inj {k k' : Kind} (hk : k.symbol.length = 1) (hk' : k'.symbol.length = 1)
    (h : '(' :: (k.symbol ++ ' ' :: x) = '(' :: (k'.symbol ++ ' ' :: y)) : k = k' ∧ x = y := by
  obtain ⟨hsymbol, hrest⟩ := List.append_inj (List.cons.inj h).2 (hk.trans hk'.symm)
  exact ⟨Kind.symbol_injective hsymbol, (List.cons.inj hrest).2⟩

/-- An expression and what follows it are known from the text of both. -/
theorem rendered_append_inj (he : e.IsLexical trailingDot) (hf : f.IsLexical trailingDot')
    (hx : Delimited x) (hy : Delimited y) (h : e.rendered ++ x = f.rendered ++ y) :
    e = f ∧ x = y := by
  induction e generalizing f x y with
  | literal v lexeme =>
      cases f with
      | literal w lexeme' =>
          obtain ⟨rfl, rfl⟩ := lexeme_append_inj he.1 hf.1 hx hy h
          obtain rfl : v = w := Option.some.inj (he.2.symm.trans hf.2)
          exact ⟨rfl, rfl⟩
      | signed s f =>
          rw [rendered_signed_append] at h
          exact absurd h (lexeme_append_ne he.1)
      | binary o l r =>
          rw [rendered_binary_append] at h
          exact absurd h (lexeme_append_ne he.1)
  | signed s e ih =>
      rw [rendered_signed_append] at h
      cases f with
      | literal w lexeme' => exact absurd h.symm (lexeme_append_ne hf.1)
      | signed s' f =>
          rw [rendered_signed_append] at h
          obtain ⟨hs, hrest⟩ := symbol_append_inj s.length_symbol s'.length_symbol h
          have hf : f.IsLexical trailingDot' := hf
          obtain ⟨rfl, hxy⟩ := ih he hf (delimited_close x) (delimited_close y) hrest
          exact ⟨by rw [Sign.kind_injective hs], (List.cons.inj hxy).2⟩
      | binary o l r =>
          -- the operand of a sign is followed by a parenthesis, a left operand by a blank
          rw [rendered_binary_append] at h
          obtain ⟨-, hrest⟩ := symbol_append_inj s.length_symbol o.length_symbol h
          obtain ⟨-, hxy⟩ := ih he hf.1 (delimited_close x) (delimited_blank _) hrest
          exact absurd (List.cons.inj hxy).1 (by decide)
  | binary o l r ihl ihr =>
      rw [rendered_binary_append] at h
      cases f with
      | literal w lexeme' => exact absurd h.symm (lexeme_append_ne hf.1)
      | signed s f =>
          rw [rendered_signed_append] at h
          obtain ⟨-, hrest⟩ := symbol_append_inj o.length_symbol s.length_symbol h
          have hf : f.IsLexical trailingDot' := hf
          obtain ⟨-, hxy⟩ := ihl he.1 hf (delimited_blank _) (delimited_close y) hrest
          exact absurd (List.cons.inj hxy).1 (by decide)
      | binary o' l' r' =>
          rw [rendered_binary_append] at h
          obtain ⟨ho, hrest⟩ := symbol_append_inj o.length_symbol o'.length_symbol h
          obtain ⟨rfl, hright⟩ := ihl he.1 hf.1 (delimited_blank _) (delimited_blank _) hrest
          obtain ⟨rfl, hxy⟩ := ihr he.2 hf.2 (delimited_close x) (delimited_close y)
            (List.cons.inj hright).2
          exact ⟨by rw [Operator.kind_injective ho], (List.cons.inj hxy).2⟩

/-- Expressions that were read have one text exactly if they are the same. -/
theorem render_eq_iff (he : e.IsLexical trailingDot) (hf : f.IsLexical trailingDot') :
    e.render = f.render ↔ e.same f = true := by
  have hnone : Delimited [] := fun c hc => by cases hc
  rw [same_iff_eq he hf]
  constructor
  · intro h
    have htext : e.rendered ++ [] = f.rendered ++ [] := by
      rw [← toList_render, ← toList_render, h]
    exact (rendered_append_inj he hf hnone hnone htext).1
  · rintro rfl
    rfl

/-- The nodes of an expression of a line are expressions of lines too. -/
theorem IsLexical.of_mem_postOrder {node : Expr} (he : e.IsLexical trailingDot)
    (h : node ∈ e.postOrder) : node.IsLexical trailingDot := by
  induction e with
  | literal v lexeme => exact List.mem_singleton.mp h ▸ he
  | signed s e ih =>
      obtain h | h := List.mem_append.mp h
      · exact ih he h
      · exact List.mem_singleton.mp h ▸ he
  | binary o l r ihl ihr =>
      obtain h | h := List.mem_append.mp h
      · exact (List.mem_append.mp h).elim (ihl he.1) (ihr he.2)
      · exact List.mem_singleton.mp h ▸ he

end Expr

/-! ## lines -/

namespace Line

variable {s t : Settings} {a b : List Char}

/-- The expressions of two lines have one text exactly if they are the same in shape, in signs and
operators and in the values and lexemes of their numbers, and then they are equal.  The same holds
of any two nodes of them, and of the messages in which these are refused a division. -/
theorem render_eq_iff_same (ha : read s a = .ok e) (hb : read t b = .ok f) :
    (e.render = f.render ↔ e.same f = true) ∧ (e.same f = true ↔ e = f) ∧
      ∀ m ∈ e.postOrder, ∀ n ∈ f.postOrder, (m.render = n.render ↔ m.same n = true) ∧
        ((Stop.zeroDivision m).message = (Stop.zeroDivision n).message ↔ m.same n = true) := by
  have he := isLexical_of_read ha
  have hf := isLexical_of_read hb
  refine ⟨Expr.render_eq_iff he hf, Expr.same_iff_eq he hf, fun m hm n hn => ?_⟩
  have hnodes := Expr.render_eq_iff (he.of_mem_postOrder hm) (hf.of_mem_postOrder hn)
  refine ⟨hnodes, ?_⟩
  rw [← hnodes, Expr.message_zeroDivision, Expr.message_zeroDivision, String.append_right_inj,
    ← Expr.toList_render, ← Expr.toList_render, String.ofList_toList, String.ofList_toList]

/-- A number that ends in a point and the same number with a digit after it are not confused. -/
theorem render_pointed : ∃ e f, read .standard "-(1.)".toList = .ok e ∧
    read .noTrailingDot "-1.0".toList = .ok f ∧ e.render ≠ f.render := by
  let one (lexeme : List Char) : Expr := .literal ((Decimal.numeral? lexeme).getD 0) lexeme
  have hbare : Derives Settings.standard.limit .addition
      [Kind.minus.token, Kind.openParen.token, ⟨.number, ['1', '.']⟩, Kind.closeParen.token]
      (.signed .minus (one ['1', '.'])) :=
    .term (.factor (.signed rfl
      (.parentheses rfl rfl (.term (.factor (.unsigned (.number rfl rfl)))))))
  have hdigit : Derives Settings.noTrailingDot.limit .addition
      [Kind.minus.token, ⟨.number, ['1', '.', '0']⟩] (.signed .minus (one ['1', '.', '0'])) :=
    .term (.factor (.signed rfl (.number rfl rfl)))
  have h : read .standard "-(1.)".toList = .ok _ := read_lexemes hbare (by decide)
  have h' : read .noTrailingDot "-1.0".toList = .ok _ := read_lexemes hdigit (by decide)
  refine ⟨_, _, h, h', fun hrender => ?_⟩
  have hsame := (render_eq_iff_same h h').1.mp hrender
  simp [Expr.same, one] at hsame

end Line

end LineCalc
