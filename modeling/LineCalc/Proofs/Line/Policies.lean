import LineCalc.Proofs.Line.Outcome

/-!
# LineCalc.Proofs.Line.Policies

The two policies for divisions side by side.  Under the strict one an
expression is evaluated as under the other up to the first node that divides
by zero, if there is one.  Whether a node does so is a question to the values
without the policy, also to those that the strict evaluation never comes to.
-/

namespace LineCalc

namespace Binary64

/-- The doubles without a magnitude are the two zeros. -/
theorem pattern_eq_zero_iff (x : Float) :
    pattern x = 0 ↔ x.toBits = 0 ∨ x.toBits = 0x8000000000000000 := by
  have := x.toBits.toNat_lt
  rw [pattern, ← UInt64.toNat_inj, ← UInt64.toNat_inj]
  simp
  omega

end Binary64

namespace Expr

variable {e node : Expr} {s : Stop}

/-! ## nodes that divide by zero -/

/-- The node is a division, and the value of its right operand is a zero of either sign. -/
def IsZeroDivision (node : Expr) : Prop :=
  ∃ l r y, node = binary .div l r ∧ r.evaluate .ieee = .ok y ∧
    (y.toBits = 0 ∨ y.toBits = 0x8000000000000000)

/-- The node is the first of some nodes that divides by zero. -/
def IsFirstZeroDivision (nodes : List Expr) (node : Expr) : Prop :=
  ∃ before after, nodes = before ++ node :: after ∧ node.IsZeroDivision ∧
    ∀ n ∈ before, ¬ n.IsZeroDivision

/-- Under the IEEE policy every expression has its value in IEEE arithmetic. -/
theorem evaluate_ieee (e : Expr) : e.evaluate .ieee = .ok (e.value .binary64) := by
  rw [evaluate, evaluateWith_eq_denote, denote_ieee]

/-- The strict outcome is settled by the first node, in post-order, that divides by zero. -/
theorem evaluate_strict (e : Expr) : e.evaluate .strict =
    strictOutcome .binary64 e (e.postOrder.find? (dividesByZero .binary64)) := by
  rw [evaluate, evaluateWith_eq_denote, denote_strict]

/-- The check of a node finds the divisions by zero. -/
theorem dividesByZero_iff : dividesByZero .binary64 node = true ↔ node.IsZeroDivision := by
  constructor
  · intro h
    unfold dividesByZero at h
    split at h
    · next l r =>
      refine ⟨l, r, _, rfl, evaluate_ieee r, (Binary64.pattern_eq_zero_iff _).mp ?_⟩
      simpa [Arithmetic.binary64] using h
    · simp at h
  · rintro ⟨l, r, y, rfl, hy, hz⟩
    rw [evaluate_ieee] at hy
    cases hy
    simpa [dividesByZero, Arithmetic.binary64] using (Binary64.pattern_eq_zero_iff _).mpr hz

/-- The search for such a node finds the first one. -/
theorem find?_dividesByZero {nodes : List Expr}
    (h : nodes.find? (dividesByZero .binary64) = some node) : IsFirstZeroDivision nodes node := by
  obtain ⟨hz, before, after, hnodes, hbefore⟩ := List.find?_eq_some_iff_append.mp h
  refine ⟨before, after, hnodes, dividesByZero_iff.mp hz, fun n hn hzero => ?_⟩
  have hfalse : dividesByZero .binary64 n = false := by simpa using hbefore n hn
  rw [dividesByZero_iff.mpr hzero] at hfalse
  simp at hfalse

/-! ## an expression under both policies -/

/-- Only a division by zero is refused, and the first one is named. -/
theorem evaluate_strict_error (h : e.evaluate .strict = .error s) :
    ∃ node, IsFirstZeroDivision e.postOrder node ∧ s = .zeroDivision node := by
  rw [evaluate, evaluateWith_eq_denote] at h
  obtain ⟨-, node, hf, rfl⟩ := exists_of_denote_eq_error h
  exact ⟨node, find?_dividesByZero hf, rfl⟩

/-- Without a division by zero the policies agree. -/
theorem evaluate_strict_eq (h : ∀ node ∈ e.postOrder, ¬ node.IsZeroDivision) :
    e.evaluate .strict = e.evaluate .ieee := by
  have hnone : e.postOrder.find? (dividesByZero .binary64) = none :=
    List.find?_eq_none.mpr fun node hn hz => h node hn (dividesByZero_iff.mp hz)
  rw [evaluate_strict, hnone, evaluate_ieee]
  rfl

/-- The strict policy refuses a node exactly if there is one that divides by zero. -/
theorem evaluate_strict_error_iff :
    (∃ s, e.evaluate .strict = .error s) ↔ ∃ node ∈ e.postOrder, node.IsZeroDivision := by
  constructor
  · rintro ⟨s, hs⟩
    obtain ⟨node, ⟨before, after, hnodes, hz, -⟩, -⟩ := evaluate_strict_error hs
    exact ⟨node, by simp [hnodes], hz⟩
  · rintro ⟨node, hn, hz⟩
    rw [evaluate_strict]
    cases hf : e.postOrder.find? (dividesByZero .binary64) with
    | none => exact absurd (dividesByZero_iff.mpr hz) (List.find?_eq_none.mp hf node hn)
    | some first => exact ⟨_, rfl⟩

end Expr

/-! ## a line under both policies -/

namespace Line

/-- A line fails by the same fault of the grammar under both policies, or it has a value where
division by zero is one, and the strict policy has the same or refuses a division. -/
theorem evaluate_policies (s : Settings) (text : List Char) :
    (∃ g, evaluate { s with division := .ieee } text = .error (.reading (.grammar g)) ∧
      evaluate { s with division := .strict } text = .error (.reading (.grammar g))) ∨
    (∃ x, evaluate { s with division := .ieee } text = .ok x ∧
      (evaluate { s with division := .strict } text = .ok x ∨
        ∃ node, evaluate { s with division := .strict } text =
          .error (.evaluation (.zeroDivision node)))) := by
  obtain ⟨e, he⟩ | ⟨g, hg⟩ := readTokens_tokensOf_cases s.limit s.trailingDot text
  · have hieee := evaluate_of_read (s := { s with division := .ieee }) he
    have hstrict := evaluate_of_read (s := { s with division := .strict }) he
    obtain ⟨x, hx⟩ : ∃ x, e.evaluate .ieee = .ok x := ⟨_, e.evaluate_ieee⟩
    refine .inr ⟨x, by rw [hieee, hx]; rfl, ?_⟩
    rw [hstrict]
    cases h : e.evaluate .strict with
    | ok y =>
        have hz : ∀ node ∈ e.postOrder, ¬ node.IsZeroDivision := by
          intro node hn hz
          obtain ⟨t, ht⟩ := Expr.evaluate_strict_error_iff.mpr ⟨node, hn, hz⟩
          simp [h] at ht
        rw [Expr.evaluate_strict_eq hz, hx] at h
        exact .inl (by rw [← h]; rfl)
    | error t =>
        obtain ⟨node, -, rfl⟩ := Expr.evaluate_strict_error h
        exact .inr ⟨node, rfl⟩
  · exact .inl ⟨g, evaluate_of_read_error (s := { s with division := .ieee }) hg,
      evaluate_of_read_error (s := { s with division := .strict }) hg⟩

end Line

end LineCalc
