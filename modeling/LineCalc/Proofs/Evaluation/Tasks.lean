import LineCalc.Proofs.Evaluation.Value

/-!
# LineCalc.Proofs.Evaluation.Tasks

The evaluation by tasks, round by round.  `Reached a d e n tasks values` says
that the evaluation of `e` has these tasks and values before it after `n`
rounds.  Two things hold from round to round:

* the rounds done and the weights of the tasks left are twice the size of the
  expression, so the rounds come to an end (`Reached.rounds`);
* worked off from the count of values there are, the tasks find the operands
  of every node and leave one value (`Reached.height`).

The second definition, by recursion on the expression, says what the value
is: `run_visit` takes a node with everything below it as one step.
-/

namespace LineCalc.Expr

variable {a : Arithmetic} {d : Division} {e node : Expr} {n : Nat}
variable {tasks rest : List Task} {values values' : List Float}

/-! ## rounds -/

/-- The tasks and values of an evaluation after some rounds. -/
inductive Reached (a : Arithmetic) (d : Division) (e : Expr) :
    Nat → List Task → List Float → Prop where
  | start : Reached a d e 0 [.visit e] []
  | visit {n : Nat} {node : Expr} {rest : List Task} {values : List Float} :
      Reached a d e n (.visit node :: rest) values →
      Reached a d e (n + 1) (node.tasks ++ rest) values
  | finish {n : Nat} {node : Expr} {rest : List Task} {values values' : List Float} :
      Reached a d e n (.finish node :: rest) values → finish a d node values = .ok values' →
      Reached a d e (n + 1) rest values'

/-- How many values there are after all the tasks, if every node finds its operands. -/
def height : List Task → Nat → Option Nat
  | [], n => some n
  | .visit _ :: rest, n => height rest (n + 1)
  | .finish e :: rest, n =>
    if e.operands.length ≤ n then height rest (n - e.operands.length + 1) else none

/-- Visiting a node is one value more, and so are the tasks that it amounts to. -/
theorem height_tasks_append (e : Expr) (rest : List Task) (n : Nat) :
    height (e.tasks ++ rest) n = height rest (n + 1) := by
  cases e <;> simp [tasks, operands, height]

/-- Finishing a node takes the values of its operands and puts one there. -/
theorem length_of_finish (h : finish a d e values = .ok values') :
    e.operands.length ≤ values.length ∧
      values'.length = values.length - e.operands.length + 1 := by
  cases e with
  | literal v lexeme =>
      cases h
      simp [operands]
  | signed s e =>
      cases values with
      | nil => simp [finish] at h
      | cons x values =>
          cases h
          simp [operands]
  | binary o l r =>
      rcases values with _ | ⟨y, _ | ⟨x, values⟩⟩
      · simp [finish] at h
      · simp [finish] at h
      · simp only [finish] at h
        split at h
        · cases h
        · cases h
          simp [operands]

namespace Reached

/-- The rounds done and those left are twice the size of the expression. -/
theorem rounds (h : Reached a d e n tasks values) : n + Task.weights tasks = 2 * e.size := by
  induction h with
  | start => simp [Task.weights, Task.weight]
  | @visit n node rest values _ ih =>
      have := weights_tasks_append node rest
      omega
  | @finish n node rest values values' _ _ ih =>
      simp only [Task.weights, Task.weight] at ih ⊢
      omega

/-- The tasks left find the operands of every node, and leave one value. -/
theorem height (h : Reached a d e n tasks values) : height tasks values.length = some 1 := by
  induction h with
  | start => rfl
  | visit _ ih => rwa [height_tasks_append]
  | finish _ hf ih =>
      obtain ⟨hle, hlen⟩ := length_of_finish hf
      rw [hlen]
      simpa [Expr.height, hle] using ih

/-- A node that is to be finished has the values of its operands on the stack. -/
theorem length_operands_le (h : Reached a d e n (.finish node :: rest) values) :
    node.operands.length ≤ values.length := by
  have := h.height
  simp only [Expr.height] at this
  split at this
  · assumption
  · simp at this

/-- With no task left there is one value. -/
theorem exists_value (h : Reached a d e n [] values) : ∃ x, values = [x] := by
  have := h.height
  simpa [Expr.height, List.length_eq_one_iff] using this

/-- The outcome of an evaluation can be seen from every round. -/
theorem run (h : Reached a d e n tasks values) : run a d tasks values = run a d [.visit e] [] := by
  induction h with
  | start => rfl
  | visit _ ih => rw [← ih, Expr.run]
  | finish _ hf ih =>
      rw [← ih, Expr.run.eq_3]
      simp [hf]

end Reached

/-! ## the second definition -/

/-- The remaining tasks after a node that has a value, or its fault. -/
def resume (a : Arithmetic) (d : Division) (rest : List Task) (values : List Float) :
    Except Stop Float → Except Stop (List Float)
  | .ok x => run a d rest (x :: values)
  | .error s => .error s

/-- To visit a node is to put its value before the other values. -/
theorem run_visit (a : Arithmetic) (d : Division) (e : Expr) (rest : List Task)
    (values : List Float) :
    run a d (.visit e :: rest) values = resume a d rest values (e.denote a d) := by
  induction e generalizing rest values with
  | literal v lexeme =>
      rw [run]
      simp [tasks, operands, run, finish, denote, resume]
  | signed s e ih =>
      have hvisit : run a d (.visit (signed s e) :: rest) values =
          run a d (.visit e :: .finish (signed s e) :: rest) values := by
        rw [run]
        rfl
      rw [hvisit, ih, denote]
      cases e.denote a d with
      | error stop => rfl
      | ok x =>
          rw [resume, run]
          rfl
  | binary o l r ihl ihr =>
      have hvisit : run a d (.visit (binary o l r) :: rest) values =
          run a d (.visit l :: .visit r :: .finish (binary o l r) :: rest) values := by
        rw [run]
        rfl
      rw [hvisit, ihl, denote]
      cases l.denote a d with
      | error stop => rfl
      | ok x =>
          rw [resume, ihr]
          cases r.denote a d with
          | error stop => rfl
          | ok y =>
              rw [resume, run, finish]
              simp only [bind, Except.bind]
              cases a.refuses d o y <;> rfl

/-- The evaluation by tasks has the outcome of the recursion. -/
theorem evaluateWith_eq_denote (a : Arithmetic) (d : Division) (e : Expr) :
    e.evaluateWith a d = e.denote a d := by
  rw [evaluateWith, run_visit]
  cases e.denote a d with
  | error stop => rfl
  | ok x =>
      rw [resume, run]

theorem render_eq (e : Expr) : e.render = String.ofList e.rendered := by
  rw [render, renderedBefore_eq, List.append_nil]

/-- The message of a division by zero shows the node. -/
theorem message_zeroDivision (node : Expr) : (Stop.zeroDivision node).message =
    "Division by zero in " ++ String.ofList node.rendered := by
  show "Division by zero in " ++ node.render = _
  rw [render_eq]

/-- What ends an evaluation without a value is the first division by zero under the strict
policy. -/
theorem exists_of_denote_eq_error {s : Stop} (h : e.denote a d = .error s) :
    d = .strict ∧ ∃ node, e.postOrder.find? (dividesByZero a) = some node ∧
      s = .zeroDivision node := by
  cases d with
  | ieee => simp [denote_ieee] at h
  | strict =>
      rw [denote_strict] at h
      cases hf : e.postOrder.find? (dividesByZero a) with
      | none => simp [hf, strictOutcome] at h
      | some node =>
          rw [hf] at h
          cases h
          exact ⟨rfl, node, rfl, rfl⟩

/-- Whatever the operations compute, the evaluation by tasks comes to its end after at most twice
as many rounds as the expression has nodes; every node that it finishes finds the values of its
operands, and one value is left, which is the value by recursion.  An evaluation that ends without
a value has come, under the strict policy, to the first node that divides by zero. -/
theorem evaluateWith_by_rounds (a : Arithmetic) (d : Division) (e : Expr) :
    (∀ n tasks values, Reached a d e n tasks values →
      n + Task.weights tasks = 2 * e.size ∧
      run a d tasks values = run a d [.visit e] [] ∧
      (∀ node rest, tasks = .finish node :: rest → node.operands.length ≤ values.length) ∧
      (tasks = [] → ∃ x, values = [x] ∧ e.denote a d = .ok x)) ∧
    e.evaluateWith a d = e.denote a d ∧
    ∀ s, e.evaluateWith a d = .error s → d = .strict ∧
      ∃ node, e.postOrder.find? (dividesByZero a) = some node ∧ s = .zeroDivision node ∧
        s.message = "Division by zero in " ++ String.ofList node.rendered := by
  refine ⟨fun n tasks values h => ⟨h.rounds, h.run, ?_, ?_⟩, evaluateWith_eq_denote a d e, ?_⟩
  · rintro node rest rfl
    exact h.length_operands_le
  · rintro rfl
    obtain ⟨x, rfl⟩ := h.exists_value
    refine ⟨x, rfl, ?_⟩
    rw [← evaluateWith_eq_denote, evaluateWith, ← h.run, run]
  · intro s hs
    rw [evaluateWith_eq_denote] at hs
    obtain ⟨hd, node, hf, rfl⟩ := exists_of_denote_eq_error hs
    exact ⟨hd, node, hf, rfl, message_zeroDivision node⟩

end LineCalc.Expr
