import LineCalc.Chain
import LineCalc.Proofs.Evaluation.Tasks

/-!
# LineCalc.Proofs.Evaluation.Reduction

The value of a chain in two passes is the value of the expression that leans
to the left at both ranks.  `Expr.chained` builds this expression in one go, a
run of products at a time, with a function for the sum in front of the run; its
value follows the two passes, whatever the operations compute
(`outcome?_chained`).  The second pass has no divisions, and the first divides
by the values of the chain and by nothing else, so the strict policy refuses a
chain exactly if there is a zero after a division sign in it:
`reduce_strict_eq_none_iff`.
-/

namespace LineCalc

variable {a : Arithmetic} {d : Division}

/-! ## outcomes without their causes -/

namespace Expr

/-- The value of an expression, if its evaluation is not refused. -/
def outcome? (a : Arithmetic) (d : Division) (e : Expr) : Option Float := (e.denote a d).toOption

/-- A sign acts on the outcome of what it stands before. -/
theorem outcome?_signed (s : Sign) (e : Expr) :
    (signed s e).outcome? a d = (e.outcome? a d).map (a.sign s) := by
  rw [outcome?, outcome?, denote]
  cases e.denote a d <;> rfl

/-- An operator combines the outcomes of its sides. -/
theorem outcome?_binary (o : Operator) (l r : Expr) :
    (binary o l r).outcome? a d = (l.outcome? a d).bind fun x => (r.outcome? a d).bind fun y =>
      Chain.combine a d o x y := by
  rw [outcome?, outcome?, outcome?, denote]
  cases l.denote a d with
  | error s => rfl
  | ok x =>
      cases r.denote a d with
      | error s => rfl
      | ok y =>
          simp only [bind, Except.bind, Except.toOption, Option.bind_some, Chain.combine]
          cases a.refuses d o y <;> rfl

/-- The expression of a chain: the run of products that ends with `e` goes on as long as there are
product signs, and takes its place in the sum at the next sum sign. -/
def chained (place : Expr → Expr) (e : Expr) : List (Operator × Expr) → Expr
  | [] => place e
  | (o, f) :: rest =>
    if o.isProduct then chained place (binary o e f) rest
    else chained (binary o (place e)) f rest

end Expr

/-! ## the passes -/

namespace Chain

variable {c : Chain} {rest : List (Operator × Float)}

/-- The first pass goes past a sum sign and begins a new run behind it. -/
theorem products_sum {o : Operator} {x y : Float} (ho : o.isProduct = false) :
    products a d x ((o, y) :: rest) =
      (products a d y rest).map fun c => ⟨x, (o, c.first) :: c.rest⟩ := by
  simp [products, ho]

/-- The first pass computes at a product sign. -/
theorem products_product {o : Operator} {x y : Float} (ho : o.isProduct = true) :
    products a d x ((o, y) :: rest) = (combine a d o x y).bind fun z => products a d z rest := by
  simp [products, ho]

/-- The second pass computes at every sign. -/
theorem sums_cons {o : Operator} {x y : Float} :
    sums a d ⟨x, (o, y) :: rest⟩ = (combine a d o x y).bind fun z => sums a d ⟨z, rest⟩ := rfl

/-- The expression of a chain has the value of its two passes; the second one begins with the sum in
front, which `into` takes the first run into. -/
theorem outcome?_chained (links : List (Operator × Expr)) (values : List (Operator × Float))
    (hv : links.map (fun p => (p.1, p.2.outcome? a d)) = values.map fun p => (p.1, some p.2))
    (place : Expr → Expr) (into : Float → Option Float)
    (hp : ∀ f, (place f).outcome? a d = (f.outcome? a d).bind into) (e : Expr) :
    (Expr.chained place e links).outcome? a d =
      (e.outcome? a d).bind fun x => (products a d x values).bind fun c =>
        (into c.first).bind fun y => sums a d ⟨y, c.rest⟩ := by
  induction links generalizing values place into e with
  | nil =>
      obtain rfl : values = [] := by simpa using hv.symm
      rw [Expr.chained, hp]
      simp [products, sums]
  | cons link links ih =>
      obtain ⟨o, f⟩ := link
      cases values with
      | nil => simp at hv
      | cons v values =>
          obtain ⟨o', y⟩ := v
          simp only [List.map_cons, List.cons.injEq, Prod.mk.injEq] at hv
          obtain ⟨⟨rfl, hf⟩, hv⟩ := hv
          cases ho : o.isProduct with
          | true =>
              rw [Expr.chained, if_pos ho, ih values hv place into hp, Expr.outcome?_binary, hf]
              simp only [products_product ho, Option.bind_some, Option.bind_assoc]
          | false =>
              have hp' : ∀ g, (Expr.binary o (place e) g).outcome? a d =
                  (g.outcome? a d).bind fun y =>
                    ((e.outcome? a d).bind into).bind fun x => combine a d o x y := by
                intro g
                rw [Expr.outcome?_binary, hp, Option.bind_comm]
              rw [Expr.chained, if_neg (by simp [ho]), ih values hv _ _ hp', hf]
              simp only [Option.bind_some, products_sum ho, Option.bind_map, Function.comp_def,
                sums_cons, Option.bind_assoc]
              rw [Option.bind_comm]

/-! ## refused divisions -/

/-- Two values have no outcome exactly where the policy refuses the divisor. -/
theorem combine_eq_none_iff {o : Operator} {x y : Float} :
    combine a d o x y = none ↔ a.refuses d o y = true := by
  rw [combine]
  split <;> simp [*]

/-- No policy refuses a sum. -/
theorem not_refuses {o : Operator} {y : Float} (ho : o.isProduct = false) :
    a.refuses d o y = false := by
  cases o <;> simp_all [Operator.isProduct, Arithmetic.refuses]

/-- The first pass is refused where a value of the chain is refused as a divisor. -/
theorem products_eq_none_iff (x : Float) :
    products a d x rest = none ↔ ∃ p ∈ rest, a.refuses d p.1 p.2 = true := by
  induction rest generalizing x with
  | nil => simp [products]
  | cons p rest ih =>
      obtain ⟨o, y⟩ := p
      simp only [List.mem_cons, exists_eq_or_imp]
      cases ho : o.isProduct with
      | true =>
          rw [products_product ho, ← combine_eq_none_iff (x := x)]
          cases combine a d o x y with
          | none => simp
          | some z => simpa using ih z
      | false =>
          rw [products_sum ho, not_refuses ho]
          simpa using ih y

/-- Between the runs there are sum signs only. -/
theorem isProduct_eq_false {x : Float} (h : products a d x rest = some c) :
    ∀ p ∈ c.rest, p.1.isProduct = false := by
  induction rest generalizing x c with
  | nil =>
      cases h
      simp
  | cons p rest ih =>
      obtain ⟨o, y⟩ := p
      cases ho : o.isProduct with
      | true =>
          rw [products_product ho, Option.bind_eq_some_iff] at h
          obtain ⟨z, -, hz⟩ := h
          exact ih hz
      | false =>
          rw [products_sum ho, Option.map_eq_some_iff] at h
          obtain ⟨c', hc', rfl⟩ := h
          exact List.forall_mem_cons.mpr ⟨ho, ih hc'⟩

/-- The second pass of a chain without products is never refused. -/
theorem sums_isSome (hc : ∀ p ∈ c.rest, p.1.isProduct = false) : ∃ x, sums a d c = some x := by
  obtain ⟨x, links⟩ := c
  induction links generalizing x with
  | nil => exact ⟨x, rfl⟩
  | cons p links ih =>
      obtain ⟨o, y⟩ := p
      obtain ⟨ho, hc⟩ := List.forall_mem_cons.mp hc
      rw [sums_cons, combine, not_refuses ho]
      exact ih _ hc

/-- Under the strict policy a chain is refused exactly if there is a zero after a division sign. -/
theorem reduce_strict_eq_none_iff :
    reduce a .strict c = none ↔ ∃ y, (.div, y) ∈ c.rest ∧ a.isZero y = true := by
  have hreduce : reduce a .strict c = none ↔ products a .strict c.first c.rest = none := by
    rw [reduce]
    cases h : products a .strict c.first c.rest with
    | none => simp
    | some c' =>
        obtain ⟨x, hx⟩ := sums_isSome (a := a) (d := .strict) (isProduct_eq_false h)
        simp [hx]
  rw [hreduce, products_eq_none_iff]
  constructor
  · rintro ⟨⟨o, y⟩, hp, hr⟩
    simp only [Arithmetic.refuses, Bool.and_eq_true, decide_eq_true_eq] at hr
    obtain ⟨⟨-, rfl⟩, hz⟩ := hr
    exact ⟨y, hp, hz⟩
  · rintro ⟨y, hp, hz⟩
    exact ⟨_, hp, by simp [Arithmetic.refuses, hz]⟩

end Chain

/-- An expression whose outcomes are those of a chain has, where division by zero is a value, the
value of the chain; under the strict policy it has the same one, or a division is refused in
both. -/
theorem Expr.evaluateWith_of_reduce {e : Expr} {c : Chain}
    (h : ∀ d, (e.evaluateWith a d).toOption = Chain.reduce a d c) :
    ∃ x, Chain.reduce a .ieee c = some x ∧ e.evaluateWith a .ieee = .ok x ∧
      (Chain.reduce a .strict c = some x ∧ e.evaluateWith a .strict = .ok x ∨
        Chain.reduce a .strict c = none ∧
          ∃ node, e.evaluateWith a .strict = .error (.zeroDivision node)) := by
  have hieee : e.evaluateWith a .ieee = .ok (e.value a) := by
    rw [evaluateWith_eq_denote, denote_ieee]
  refine ⟨e.value a, by rw [← h, hieee]; rfl, hieee, ?_⟩
  rw [← h, evaluateWith_eq_denote, denote_strict]
  cases e.postOrder.find? (dividesByZero a) with
  | none => exact .inl ⟨rfl, rfl⟩
  | some node => exact .inr ⟨rfl, node, rfl⟩

end LineCalc
