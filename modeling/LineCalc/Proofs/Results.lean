import Mathlib.Data.List.Forall2

/-!
# LineCalc.Proofs.Results

Computations that end with a result or a fault.  One after another, they have
a result if each of them has, and then it is made up of theirs, in order.
-/

namespace LineCalc

variable {ε α β : Type} {m : Except ε α} {k : α → Except ε β} {b : β}

/-- Two computations in a row have a result when both have. -/
theorem bind_eq_ok_iff : m >>= k = .ok b ↔ ∃ a, m = .ok a ∧ k a = .ok b := by
  constructor
  · intro h
    cases m with
    | error f => cases h
    | ok a => exact ⟨a, rfl, h⟩
  · rintro ⟨a, rfl, hk⟩
    exact hk

/-- A computation ends with a fault exactly if it has no result. -/
theorem exists_error_iff_not_exists_ok : (∃ f, m = .error f) ↔ ¬ ∃ a, m = .ok a := by
  cases m <;> simp

/-- All the results, one for each computation and in their order. -/
theorem mapM_eq_ok_iff {as : List α} {bs : List β} :
    as.mapM k = .ok bs ↔ List.Forall₂ (fun a b => k a = .ok b) as bs := by
  induction as generalizing bs with
  | nil =>
      rw [List.mapM_nil, List.forall₂_nil_left_iff]
      exact ⟨fun h => (Except.ok.inj h).symm, fun h => by rw [h]; rfl⟩
  | cons a as ih =>
      rw [List.mapM_cons, bind_eq_ok_iff, List.forall₂_cons_left_iff]
      constructor
      · rintro ⟨b, hb, h⟩
        obtain ⟨bs', hbs, h⟩ := bind_eq_ok_iff.mp h
        exact ⟨b, bs', hb, ih.mp hbs, (Except.ok.inj h).symm⟩
      · rintro ⟨b, bs', hb, hbs, rfl⟩
        exact ⟨b, hb, bind_eq_ok_iff.mpr ⟨bs', ih.mpr hbs, rfl⟩⟩

/-- A list of computations has results exactly if each has one. -/
theorem exists_mapM_eq_ok_iff {as : List α} :
    (∃ bs, as.mapM k = .ok bs) ↔ ∀ a ∈ as, ∃ b, k a = .ok b := by
  simp only [mapM_eq_ok_iff]
  induction as with
  | nil => exact ⟨fun _ => by simp, fun _ => ⟨[], .nil⟩⟩
  | cons a as ih =>
      rw [List.forall_mem_cons, ← ih]
      constructor
      · rintro ⟨_, h⟩
        obtain ⟨b, bs, hb, hbs, -⟩ := List.forall₂_cons_left_iff.mp h
        exact ⟨⟨b, hb⟩, ⟨bs, hbs⟩⟩
      · rintro ⟨⟨b, hb⟩, ⟨bs, hbs⟩⟩
        exact ⟨b :: bs, .cons hb hbs⟩

/-- What holds of one of two lists, member by member, holds of the other. -/
theorem forall_mem_iff_of_forall₂ {as : List α} {bs : List β} {R : α → β → Prop} {p : α → Prop}
    {q : β → Prop} (h : List.Forall₂ R as bs) (hpq : ∀ a ∈ as, ∀ b, R a b → (p a ↔ q b)) :
    (∀ a ∈ as, p a) ↔ ∀ b ∈ bs, q b := by
  induction h with
  | nil => simp
  | @cons a b as bs hab _ ih =>
      rw [List.forall_mem_cons, List.forall_mem_cons, hpq a List.mem_cons_self b hab,
        ih fun a ha => hpq a (List.mem_cons_of_mem _ ha)]

end LineCalc
