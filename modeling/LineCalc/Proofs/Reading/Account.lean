import LineCalc.Proofs.Reading.Depth
import LineCalc.Proofs.Reading.Verdict

/-!
# LineCalc.Proofs.Reading.Account

The account of parentheses that a reading keeps.  Wherever a course has got
to, as many levels are open as at its start and those that the tokens since
then have opened and not closed, and none of these tokens closes a level that
was open before them (`Course.exists_counts`).  A course that ends with an
expression has taken a token, and the tokens taken are balanced
(`Course.exists_balanced`).
-/

namespace LineCalc

variable {room : Nat} {goal : Goal} {r r' r'' : Reading} {t : Token} {ts us vs : List Token}
variable {out : Except Reading.Fault Expr} {e : Expr}

/-! ## tokens that close what they open -/

/-- Tokens that nowhere close a parenthesis which they have not opened. -/
def ClosesOwn (ts : List Token) : Prop := ∀ front, front <+: ts → closed front ≤ opened front

/-- Tokens that close the parentheses which they open, and no others. -/
structure Balanced (ts : List Token) : Prop where
  closesOwn : ClosesOwn ts
  opened_eq : opened ts = closed ts

namespace ClosesOwn

theorem nil : ClosesOwn [] := by
  intro front hf
  rw [List.prefix_nil.mp hf]
  exact Nat.le_refl _

/-- Tokens that close only their own do so one after the other. -/
theorem append (h : ClosesOwn us) (h' : ClosesOwn vs) : ClosesOwn (us ++ vs) := by
  intro front hf
  obtain hu | ⟨more, rfl⟩ := List.prefix_or_prefix_of_prefix hf (List.prefix_append us vs)
  · exact h front hu
  · have hu := h us (List.prefix_refl us)
    have hv := h' more ((List.prefix_append_right_inj us).mp hf)
    simp only [opened_append, closed_append]
    omega

/-- One token more needs to be looked at only where it ends the tokens. -/
theorem concat (h : ClosesOwn us) (ht : closed (us ++ [t]) ≤ opened (us ++ [t])) :
    ClosesOwn (us ++ [t]) := by
  intro front hf
  obtain rfl | hu := List.prefix_concat_iff.mp hf
  · exact ht
  · exact h front hu

/-- A token alone closes its own, unless it is a closing parenthesis. -/
theorem singleton (hk : t.kind ≠ .closeParen) : ClosesOwn [t] :=
  nil.concat (by simp [closed, hk])

end ClosesOwn

/-! ## passages that count parentheses -/

namespace Reading

/-- A passage at the end of which the levels open are those at its start and those that its tokens
have opened and not closed. -/
structure Counts (r : Reading) (ts : List Token) (r' : Reading) : Prop extends Passes r ts r' where
  depth : r'.depth + closed ts = r.depth + opened ts
  closesOwn : ClosesOwn ts

namespace Counts

theorem refl (r : Reading) : Counts r [] r := ⟨.refl r, rfl, .nil⟩

/-- A shift over a token that is no parenthesis counts. -/
theorem shift (h : r.ahead = t :: ts) (he : t.kind ≠ .eof)
    (hp : t.kind ≠ .openParen ∧ t.kind ≠ .closeParen) : Counts r [t] r.shift :=
  ⟨.shift h he, by simp [opened, closed, hp], .singleton hp.2⟩

/-- A shift over an opening parenthesis counts where it enters a level. -/
theorem enter (h : r.ahead = t :: ts) (hk : t.kind = .openParen) :
    Counts r [t] r.shift.enter :=
  ⟨(Passes.shift h (by simp [hk])).enter, by simp [opened, closed, hk], .singleton (by simp [hk])⟩

/-- A passage with a report behind it still counts. -/
theorem report (h : Counts r ts r') (f : GrammarFault) : Counts r ts (r'.report f) :=
  ⟨h.toPasses.report f, h.depth, h.closesOwn⟩

theorem trans (h : Counts r ts r') (h' : Counts r' us r'') : Counts r (ts ++ us) r'' where
  toPasses := h.toPasses.trans h'.toPasses
  depth := by
    have := h.depth
    have := h'.depth
    simp only [opened_append, closed_append]
    omega
  closesOwn := h.closesOwn.append h'.closesOwn

/-- A level that the passage has opened may be closed after it. -/
theorem leave (h : Counts r ts r') (ha : r'.ahead = t :: us) (hk : t.kind = .closeParen)
    (hd : r.depth < r'.depth) : Counts r (ts ++ [t]) r'.shift.leave := by
  have hcount := h.depth
  have ho : opened (ts ++ [t]) = opened ts := by simp [opened, hk]
  have hc : closed (ts ++ [t]) = closed ts + 1 := by simp [closed, hk]
  refine ⟨(h.toPasses.trans (.shift ha (by simp [hk]))).leave, ?_, h.closesOwn.concat (by omega)⟩
  simp only [depth_leave, depth_shift]
  omega

end Counts

end Reading

/-! ## what a course takes -/

namespace Course

open Reading

/-- At the end of every course, failed or not, the parentheses of its tokens have been counted. -/
theorem exists_counts (h : Course room goal r out r') : ∃ ts, r.Counts ts r' := by
  induction h with
  | number ha hk _ | unreadable ha hk _ => exact ⟨_, .shift ha (by simp [hk]) (by simp [hk])⟩
  | invalid _ _ _ => exact ⟨_, (Counts.refl _).report _⟩
  | tooDeep ha hk => exact ⟨_, (Counts.enter ha hk).report _⟩
  | faultWithin ha hk _ ih =>
      obtain ⟨us, hu⟩ := ih
      exact ⟨_, (Counts.enter ha hk).trans hu⟩
  | unclosed ha hk _ _ _ _ ih =>
      obtain ⟨us, hu⟩ := ih
      exact ⟨_, ((Counts.enter ha hk).trans hu).report _⟩
  | closed ha hk hin hc hck ih =>
      obtain ⟨us, hu⟩ := ih
      -- the expression leaves open the one level that the parenthesis before it has opened
      have hd := hin.depth_eq rfl
      rw [depth_enter, depth_shift] at hd
      exact ⟨_, ((Counts.enter ha hk).trans hu).leave hc hck (by omega)⟩
  | unsigned _ _ _ ih | faultFirst _ _ ih | faultWhole _ ih | whole _ _ _ ih => exact ih
  | faultUnderSign ha hs _ ih | signed ha hs _ ih =>
      obtain ⟨us, hu⟩ := ih
      exact ⟨_, (Counts.shift ha (Kind.ne_eof_of_sign? hs) (Kind.not_paren_of_sign? hs)).trans hu⟩
  | first _ _ _ ih ih' =>
      obtain ⟨us, hu⟩ := ih
      obtain ⟨vs, hv⟩ := ih'
      exact ⟨_, hu.trans hv⟩
  | last _ _ => exact ⟨_, .refl _⟩
  | faultNext ha ho _ _ ih =>
      obtain ⟨us, hu⟩ := ih
      have ho := Rank.operator?_of_rank ho
      exact ⟨_, (Counts.shift ha (Kind.ne_eof_of_operator? ho)
        (Kind.not_paren_of_operator? ho)).trans hu⟩
  | next ha ho _ _ _ ih ih' =>
      obtain ⟨us, hu⟩ := ih
      obtain ⟨vs, hv⟩ := ih'
      have ho := Rank.operator?_of_rank ho
      exact ⟨_, ((Counts.shift ha (Kind.ne_eof_of_operator? ho)
        (Kind.not_paren_of_operator? ho)).trans hu).trans hv⟩
  | leftOver _ _ _ ih =>
      obtain ⟨us, hu⟩ := ih
      exact ⟨_, hu.report _⟩

/-- What is read as an expression is one token or more, with the parentheses in pairs. -/
theorem exists_balanced (h : Course room goal r (.ok e) r')
    (hg : ∀ rank left, goal ≠ .after rank left) :
    ∃ ts, r.Counts ts r' ∧ ts ≠ [] ∧ Balanced ts := by
  have hderived : ∃ ts rank, r.Passes ts r' ∧ Derives room rank ts e := by
    cases goal with
    | whole =>
        obtain ⟨ts, _, _, hp, hd, -⟩ := h.derived rfl
        exact ⟨ts, _, hp, hd⟩
    | part rank =>
        obtain ⟨ts, hp, hd⟩ := h.derived rfl
        exact ⟨ts, _, hp, hd⟩
    | after rank left => exact absurd rfl (hg rank left)
  obtain ⟨ts, rank, hp, hd⟩ := hderived
  obtain ⟨us, hu⟩ := h.exists_counts
  obtain rfl := hp.unique hu.toPasses
  exact ⟨ts, hu, hd.ne_nil, hu.closesOwn, hd.balanced⟩

end Course

end LineCalc
