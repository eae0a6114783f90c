import LineCalc.Proofs.Binary64.Sign
import LineCalc.Proofs.Cutting.Signs
import LineCalc.Proofs.Line.Derived
import LineCalc.Proofs.Line.Written
import LineCalc.Proofs.Reading.Group

/-!
# LineCalc.Proofs.Line.Group

A line with an expression between parentheses somewhere in it, where what
stands on either side is any text.  The parentheses part the line into three
that are cut apart from each other (`exists_around`), and of the part
between them only its value counts: with another one of the same value the
line ends alike (`evaluate_group_alike`), be it with a value, with a fault of
the grammar or with a refused division.
-/

namespace LineCalc

namespace Line

variable {s : Settings} {p q text a b : List Char} {n : Nat} {x y : Float}

/-- Two outcomes of lines are one value, one fault of the grammar, or two refused divisions. -/
inductive Alike : Except Fault Float → Except Fault Float → Prop where
  | value (x : Float) : Alike (.ok x) (.ok x)
  | grammar (f : GrammarFault) :
      Alike (.error (.reading (.grammar f))) (.error (.reading (.grammar f)))
  | refused (node node' : Expr) : Alike (.error (.evaluation (.zeroDivision node)))
      (.error (.evaluation (.zeroDivision node')))

/-! ## the tokens of a group -/

/-- The tokens of a line before its end. -/
theorem exists_tokens (s : Settings) (text : List Char) :
    ∃ ts, tokens s text = ts ++ [.endOfLine] ∧ (∀ t ∈ ts, t.kind ≠ .eof) ∧ Readable ts := by
  obtain ⟨ts, hts, hv⟩ := (cuts_tokensOf s.trailingDot text).exists_isValid
  refine ⟨ts, hts, fun t ht => Cursor.ne_eof_of_isValid (hv t ht), fun t ht => ?_⟩
  exact readable_tokensOf s.trailingDot text t (hts ▸ List.mem_append_left _ ht)

/-- A line with a group is the tokens of the group with those of its sides around them. -/
theorem exists_around (s : Settings) (p q : List Char) :
    ∃ w : Around, opened w.before = p.count '(' ∧
      ∀ text ts, tokens s text = ts ++ [.endOfLine] →
        tokens s (p ++ '(' :: text ++ ')' :: q) = w.line (w.group ts) := by
  obtain ⟨before, hp, hend, hreadable⟩ := exists_tokens s p
  let w : Around := ⟨before, Kind.openParen.token, Kind.closeParen.token, tokens s q, hend, rfl,
    rfl, isLine_tokensOf s.trailingDot q, hreadable, readable_tokensOf s.trailingDot q⟩
  refine ⟨w, ?_, fun text ts ht => ?_⟩
  · rw [← opened_tokens s, hp, opened_append]
    rfl
  · have ho : Kind.ofChar? '(' = some .openParen := rfl
    have hc : Kind.ofChar? ')' = some .closeParen := rfl
    have hopen : tokens s (p ++ '(' :: text) =
        (before ++ Kind.openParen.token :: ts) ++ [.endOfLine] := by
      rw [tokens, tokensOf_append_sign ho hp, List.append_assoc]
      exact congrArg (before ++ Kind.openParen.token :: ·) ht
    rw [tokens, tokensOf_append_sign hc hopen, Around.line_group, List.append_assoc]
    rfl

/-- A line that has a value is the tokens of an expression of this value. -/
theorem exists_of_evaluate_eq_ok (h : evaluate s text = .ok x)
    (hn : NestsWithin n (tokens s text)) :
    ∃ ts e, tokens s text = ts ++ [.endOfLine] ∧ Derives n .addition ts e ∧
      e.outcome? .binary64 s.division = some x := by
  obtain ⟨ts, hts, hend, -⟩ := exists_tokens s text
  cases hread : read s text with
  | error f => simp [evaluate_of_read_error hread] at h
  | ok e =>
      have hd := (readTokens_eq_ok_iff (isLine_tokensOf s.trailingDot text)).mp hread
      rw [show tokensOf s.trailingDot text = _ from hts, beforeEnd_append hend rfl] at hd
      rw [hts] at hn
      refine ⟨ts, e, hts, hd.narrow hn.left, ?_⟩
      rw [evaluate_of_read hread, Expr.evaluate, Expr.evaluateWith_eq_denote] at h
      rw [Expr.outcome?]
      cases hden : e.denote .binary64 s.division with
      | ok z =>
          rw [hden] at h
          cases h
          rfl
      | error stop =>
          rw [hden] at h
          cases h

/-! ## outcomes -/

/-- Expressions with one outcome end alike. -/
theorem alike_of_outcome? {d : Division} {e f : Expr}
    (h : e.outcome? .binary64 d = f.outcome? .binary64 d) :
    Alike ((e.evaluate d).mapError .evaluation) ((f.evaluate d).mapError .evaluation) := by
  simp only [Expr.outcome?, ← Expr.evaluateWith_eq_denote] at h
  change (e.evaluate d).toOption = (f.evaluate d).toOption at h
  obtain ⟨x, hx⟩ | ⟨-, node, hnode⟩ := e.evaluate_cases d
  · obtain ⟨y, hy⟩ | ⟨-, node', hnode'⟩ := f.evaluate_cases d
    · rw [hx, hy] at h ⊢
      cases h
      exact .value x
    · simp [hx, hnode', Except.toOption] at h
  · obtain ⟨y, hy⟩ | ⟨-, node', hnode'⟩ := f.evaluate_cases d
    · simp [hnode, hy, Except.toOption] at h
    · rw [hnode, hnode']
      exact .refused node node'

/-- Of an expression between parentheses only the value counts: whatever stands on either side, a
line with a group ends alike with any other group of the same value, if the limit has room for
all that opens before the group, for the group and for what is nested in it. -/
theorem evaluate_group_alike (s : Settings) (p q : List Char) (ha : evaluate s a = .ok x)
    (hb : evaluate s b = .ok y) (hxy : Binary64.Same x y) (hna : NestsWithin n (tokens s a))
    (hnb : NestsWithin n (tokens s b)) (hn : p.count '(' + 1 + n ≤ s.limit) :
    Alike (evaluate s (p ++ '(' :: a ++ ')' :: q)) (evaluate s (p ++ '(' :: b ++ ')' :: q)) := by
  obtain ⟨w, hopened, htokens⟩ := exists_around s p q
  obtain ⟨ts, e, hts, he, hx⟩ := exists_of_evaluate_eq_ok ha hna
  obtain ⟨us, f, hus, hf, hy⟩ := exists_of_evaluate_eq_ok hb hnb
  have hread : ∀ {text ts}, tokens s text = ts ++ [.endOfLine] →
      read s (p ++ '(' :: text ++ ')' :: q) = readTokens s.limit (w.line (w.group ts)) :=
    fun ht => congrArg (readTokens s.limit) (htokens _ _ ht)
  obtain ⟨g, hg⟩ | ⟨c, hc⟩ := Around.readTokens_group (hopened.symm ▸ hn)
  · rw [evaluate_of_read_error ((hread hts).trans (hg ts e he)),
      evaluate_of_read_error ((hread hus).trans (hg us f hf))]
    exact .grammar g
  · rw [evaluate_of_read ((hread hts).trans (hc ts e he)),
      evaluate_of_read ((hread hus).trans (hc us f hf))]
    have houtcome : e.outcome? .binary64 s.division = f.outcome? .binary64 s.division := by
      rw [hx, hy, Binary64.eq_of_same hxy]
    exact alike_of_outcome? (c.outcome?_fill houtcome)

/-- Three as a sum and as a number. -/
def threes : List Token × List Token :=
  ([⟨.number, ['1']⟩, Kind.plus.token, ⟨.number, ['2']⟩], [⟨.number, ['3']⟩])

/-- With `1+2` and `3` between its inner parentheses the line `2/(4-(…))` ends alike. -/
theorem evaluate_threes :
    ∃ x y, evaluate .standard "1+2".toList = .ok x ∧ evaluate .standard "3".toList = .ok y ∧
      Binary64.Same x y ∧ NestsWithin 0 (tokens .standard "1+2".toList) ∧
      NestsWithin 0 (tokens .standard "3".toList) ∧
      "2/(4-".toList.count '(' + 1 + 0 ≤ Settings.standard.limit ∧
      Alike (evaluate .standard "2/(4-(1+2)))".toList)
        (evaluate .standard "2/(4-(3)))".toList) := by
  let number (lexeme : List Char) : Float := (Decimal.numeral? lexeme).getD 0
  have hsum : Derives 0 .addition threes.1
      (.binary .add (.literal (number ['1']) ['1']) (.literal (number ['2']) ['2'])) :=
    .add (.term (.factor (.unsigned (.number rfl rfl)))) rfl
      (.factor (.unsigned (.number rfl rfl)))
  have hthree : Derives 0 .addition threes.2 (.literal (number ['3']) ['3']) :=
    .term (.factor (.unsigned (.number rfl rfl)))
  have hna : NestsWithin 0 (tokens .standard (lexemes threes.1)) := by
    rw [tokens, hsum.tokensOf_lexemes (by decide)]
    decide
  have hnb : NestsWithin 0 (tokens .standard (lexemes threes.2)) := by
    rw [tokens, hthree.tokensOf_lexemes (by decide)]
    decide
  have hxy : Binary64.Same (number ['1'] + number ['2']) (number ['3']) := .inl (by decide +kernel)
  have ha : evaluate .standard (lexemes threes.1) = .ok (number ['1'] + number ['2']) := by
    rw [evaluate_of_read (read_lexemes (hsum.mono (Nat.zero_le _)) (by decide))]
    rw [Expr.evaluate, Expr.evaluateWith_eq_denote]
    rfl
  have hb : evaluate .standard (lexemes threes.2) = .ok (number ['3']) := by
    rw [evaluate_of_read (read_lexemes (hthree.mono (Nat.zero_le _)) (by decide))]
    rw [Expr.evaluate, Expr.evaluateWith_eq_denote]
    rfl
  have hsumText : lexemes threes.1 = "1+2".toList := by decide
  have hthreeText : lexemes threes.2 = "3".toList := by decide
  rw [hsumText] at hna ha
  rw [hthreeText] at hnb hb
  have h := evaluate_group_alike .standard "2/(4-".toList "))".toList ha hb hxy hna hnb (by decide)
  exact ⟨_, _, ha, hb, hxy, hna, hnb, by decide, by simpa using h⟩

end Line

end LineCalc
