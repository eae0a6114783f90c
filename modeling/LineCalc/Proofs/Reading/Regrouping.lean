import LineCalc.Proofs.Evaluation.Context
import LineCalc.Proofs.Line.Written
import LineCalc.Proofs.Reading.Depth
import LineCalc.Proofs.Reading.Verdict

/-!
# LineCalc.Proofs.Reading.Regrouping

Parentheses around the tokens of a node.  Every node of an expression is built
from a slice of the tokens that derive the expression (`Derives.exists_slice`),
and any operand derives the expression around the node in the place of the
slice (`Slice.replace`), so the node between parentheses does.  Around
parentheses that are there already it makes no difference which pair is the
new one, since what is derived depends on the kinds of the tokens and on the
lexemes of the numbers only (`Derives.of_outline`).  So a line is read as the
same expression with any node grouped, if the limit has room for the tokens:
`readTokens_grouped`.
-/

namespace LineCalc

variable {depth n limit : Nat} {rank inner : Rank} {c : Context} {e f s l r : Expr} {o : Operator}
variable {t opening closing : Token} {ts us before mid after : List Token}

/-! ## what counts of a token -/

/-- A token without its lexeme, unless it is a number. -/
def Token.outline (t : Token) : Token := if t.kind = .number then t else ⟨t.kind, []⟩

namespace Token

variable {u : Token}

/-- The outline of a token has its kind. -/
theorem kind_outline (t : Token) : t.outline.kind = t.kind := by
  rw [outline]
  split <;> rfl

/-- Tokens of one kind have one outline, unless they are numbers. -/
theorem outline_eq_of_kind (hk : u.kind = t.kind) (ht : t.kind ≠ .number) :
    u.outline = t.outline := by
  rw [outline, outline, if_neg (hk ▸ ht), if_neg ht, hk]

/-- Tokens with one outline are of one kind. -/
theorem kind_eq_of_outline (h : u.outline = t.outline) : u.kind = t.kind := by
  rw [← u.kind_outline, h, t.kind_outline]

/-- A token with the outline of a number is that number. -/
theorem eq_of_outline (h : u.outline = t.outline) (hk : t.kind = .number) : u = t := by
  have hu : u.kind = .number := (kind_eq_of_outline h).trans hk
  rwa [outline, outline, if_pos hu, if_pos hk] at h

end Token

/-- Of tokens with the outlines of others, one stands in the place of any one of those. -/
theorem exists_of_outline_append_cons
    (h : us.map Token.outline = (before ++ t :: after).map Token.outline) :
    ∃ before' u after', us = before' ++ u :: after' ∧ u.kind = t.kind ∧
      before'.map Token.outline = before.map Token.outline ∧
      after'.map Token.outline = after.map Token.outline := by
  rw [List.map_append, List.map_cons] at h
  obtain ⟨before', us, rfl, hbefore, h⟩ := List.map_eq_append_iff.mp h
  obtain ⟨u, after', rfl, hu, hafter⟩ := List.map_eq_cons_iff.mp h
  exact ⟨before', u, after', rfl, Token.kind_eq_of_outline hu, hbefore, hafter⟩

/-- Tokens of the same outlines derive the same expression. -/
theorem Derives.of_outline (h : Derives depth rank ts e)
    (hus : us.map Token.outline = ts.map Token.outline) : Derives depth rank us e := by
  induction h generalizing us with
  | number hk hv =>
      obtain ⟨u, us, rfl, hu, hnil⟩ := List.map_eq_cons_iff.mp hus
      obtain rfl := List.map_eq_nil_iff.mp hnil
      obtain rfl := Token.eq_of_outline hu hk
      exact .number hk hv
  | parentheses ho hc _ ih =>
      obtain ⟨front, u, last, rfl, hu, hfront, hlast⟩ := exists_of_outline_append_cons hus
      obtain ⟨v, vs, rfl, hv, hvs⟩ := List.map_eq_cons_iff.mp hfront
      obtain rfl := List.map_eq_nil_iff.mp hlast
      exact .parentheses ((Token.kind_eq_of_outline hv).trans ho) (hu.trans hc) (ih hvs)
  | unsigned _ ih => exact .unsigned (ih hus)
  | factor _ ih => exact .factor (ih hus)
  | term _ ih => exact .term (ih hus)
  | signed hs _ ih =>
      obtain ⟨u, vs, rfl, hu, hvs⟩ := List.map_eq_cons_iff.mp hus
      exact .signed (Token.kind_eq_of_outline hu ▸ hs) (ih hvs)
  | multiply _ ho _ ihl ihr =>
      obtain ⟨front, u, last, rfl, hu, hfront, hlast⟩ := exists_of_outline_append_cons hus
      exact .multiply (ihl hfront) (hu ▸ ho) (ihr hlast)
  | add _ ho _ ihl ihr =>
      obtain ⟨front, u, last, rfl, hu, hfront, hlast⟩ := exists_of_outline_append_cons hus
      exact .add (ihl hfront) (hu ▸ ho) (ihr hlast)

/-! ## the tokens of a node -/

/-- In the tokens of an expression of a rank, which is a context filled with a node, the node is
built from the tokens in the middle: a literal from its number, a signed node from the tokens from
its sign to the end of its operand, and a binary node from those of its operands, with their own
parentheses, and of the operator between them. -/
inductive Slice : Rank → Context → Expr → List Token → List Token → List Token → Prop where
  | literal {t : Token} {x : Float} :
      t.kind = .number → t.value = .ok x →
      Slice .primary .hole (.literal x t.lexeme) [] [t] []
  | signed {depth : Nat} {t : Token} {sign : Sign} {ts : List Token} {e : Expr} :
      t.kind.sign? = some sign → Derives depth .primary ts e →
      Slice .unary .hole (.signed sign e) [] (t :: ts) []
  | binary {depth : Nat} {rank inner : Rank} {t : Token} {o : Operator} {ts us : List Token}
      {l r : Expr} :
      rank.operator? t.kind = some o → rank.operand? = some inner →
      Derives depth rank ts l → Derives depth inner us r →
      Slice rank .hole (.binary o l r) [] (ts ++ t :: us) []
  | parentheses {c : Context} {s : Expr} {opening closing : Token} {before mid after : List Token} :
      opening.kind = .openParen → closing.kind = .closeParen →
      Slice .addition c s before mid after →
      Slice .primary c s (opening :: before) mid (after ++ [closing])
  | unsigned {c : Context} {s : Expr} {before mid after : List Token} :
      Slice .primary c s before mid after → Slice .unary c s before mid after
  | operand {rank inner : Rank} {c : Context} {s : Expr} {before mid after : List Token} :
      rank.operand? = some inner →
      Slice inner c s before mid after → Slice rank c s before mid after
  | underSign {c : Context} {s : Expr} {t : Token} {sign : Sign} {before mid after : List Token} :
      t.kind.sign? = some sign → Slice .primary c s before mid after →
      Slice .unary (.signed sign c) s (t :: before) mid after
  | left {depth : Nat} {rank inner : Rank} {c : Context} {s r : Expr} {t : Token} {o : Operator}
      {before mid after us : List Token} :
      rank.operator? t.kind = some o → rank.operand? = some inner →
      Slice rank c s before mid after → Derives depth inner us r →
      Slice rank (.left o c r) s before mid (after ++ t :: us)
  | right {depth : Nat} {rank inner : Rank} {c : Context} {s l : Expr} {t : Token} {o : Operator}
      {ts before mid after : List Token} :
      rank.operator? t.kind = some o → rank.operand? = some inner →
      Derives depth rank ts l → Slice inner c s before mid after →
      Slice rank (.right o l c) s (ts ++ t :: before) mid after

/-- Some tokens in the middle of others are those of a node. -/
def HasSlice (rank : Rank) (c : Context) (s : Expr) (ts : List Token) : Prop :=
  ∃ before mid after, ts = before ++ mid ++ after ∧ Slice rank c s before mid after

/-- A node of operands that are joined is the whole, or it is a node of one of them. -/
theorem hasSlice_of_join (ho : rank.operator? t.kind = some o) (hi : rank.operand? = some inner)
    (hl : Derives depth rank ts l) (hr : Derives depth inner us r)
    (ihl : ∀ {c}, c.fill s = l → HasSlice rank c s ts)
    (ihr : ∀ {c}, c.fill s = r → HasSlice inner c s us)
    (hfill : c.fill s = .binary o l r) : HasSlice rank c s (ts ++ t :: us) := by
  cases c with
  | hole =>
      obtain rfl : s = .binary o l r := hfill
      exact ⟨[], _, [], by simp, .binary ho hi hl hr⟩
  | signed sign c => cases hfill
  | left o' c r' =>
      cases hfill
      obtain ⟨before, mid, after, rfl, hslice⟩ := ihl rfl
      exact ⟨before, mid, after ++ t :: us, by simp, .left ho hi hslice hr⟩
  | right o' l' c =>
      cases hfill
      obtain ⟨before, mid, after, rfl, hslice⟩ := ihr rfl
      exact ⟨ts ++ t :: before, mid, after, by simp, .right ho hi hl hslice⟩

/-- Every node of an expression is built from a slice of the tokens that derive it. -/
theorem Derives.exists_slice (h : Derives depth rank ts e) (hfill : c.fill s = e) :
    HasSlice rank c s ts := by
  -- parentheses and a change of rank keep the context, the other steps take its outermost layer
  induction h generalizing c with
  | number hk hv =>
      cases c with
      | hole =>
          obtain rfl : s = _ := hfill
          exact ⟨[], _, [], rfl, .literal hk hv⟩
      | _ => cases hfill
  | @parentheses _ opening closing _ _ ho hc _ ih =>
      obtain ⟨before, mid, after, rfl, hslice⟩ := ih hfill
      exact ⟨opening :: before, mid, after ++ [closing], by simp, .parentheses ho hc hslice⟩
  | unsigned _ ih =>
      obtain ⟨before, mid, after, rfl, hslice⟩ := ih hfill
      exact ⟨before, mid, after, rfl, .unsigned hslice⟩
  | factor _ ih | term _ ih =>
      obtain ⟨before, mid, after, rfl, hslice⟩ := ih hfill
      exact ⟨before, mid, after, rfl, .operand rfl hslice⟩
  | @signed _ t _ _ _ hs hd ih =>
      cases c with
      | hole =>
          obtain rfl : s = _ := hfill
          exact ⟨[], _, [], by simp, .signed hs hd⟩
      | signed sign c =>
          cases hfill
          obtain ⟨before, mid, after, rfl, hslice⟩ := ih rfl
          exact ⟨t :: before, mid, after, rfl, .underSign hs hslice⟩
      | _ => cases hfill
  | multiply hl ho hr ihl ihr => exact hasSlice_of_join ho rfl hl hr ihl ihr hfill
  | add hl ho hr ihl ihr => exact hasSlice_of_join ho rfl hl hr ihl ihr hfill

/-- The tokens of a node derive it. -/
theorem Slice.derives (h : Slice rank c s before mid after) :
    ∃ depth, Derives depth .addition mid s := by
  induction h with
  | literal hk hv => exact ⟨0, .term (.factor (.unsigned (.number hk hv)))⟩
  | signed hs hd => exact ⟨_, .term (.factor (.signed hs hd))⟩
  | binary ho hi hl hr => exact ⟨_, (hl.join ho hi hr).loosen (Rank.looseness_le_addition _)⟩
  | parentheses _ _ _ ih | unsigned _ ih | operand _ _ ih | underSign _ _ ih | left _ _ _ _ ih
  | right _ _ _ _ ih => exact ih

/-- Operands of some depths joined by an operator. -/
theorem exists_join (ho : rank.operator? t.kind = some o) (hi : rank.operand? = some inner)
    (hl : Derives depth rank ts l) (hr : Derives n inner us r) :
    ∃ d, Derives d rank (ts ++ t :: us) (.binary o l r) :=
  ⟨_, (hl.mono (Nat.le_max_left depth n)).join ho hi (hr.mono (Nat.le_max_right depth n))⟩

/-- Any operand can stand in the place of a node, and the expression is the same around it. -/
theorem Slice.replace (h : Slice rank c s before mid after) (hus : Derives n .primary us f) :
    ∃ depth, Derives depth rank (before ++ us ++ after) (c.fill f) := by
  induction h with
  | literal _ _ | signed _ _ | binary _ _ _ _ =>
      exact ⟨n, by simpa [Context.fill] using hus.loosen (Nat.zero_le _)⟩
  | parentheses ho hc _ ih =>
      obtain ⟨d, hd⟩ := ih
      exact ⟨d + 1, by simpa using Derives.parentheses ho hc hd⟩
  | unsigned _ ih =>
      obtain ⟨d, hd⟩ := ih
      exact ⟨d, .unsigned hd⟩
  | operand hi _ ih =>
      obtain ⟨d, hd⟩ := ih
      exact ⟨d, hd.of_operand hi⟩
  | underSign hs _ ih =>
      obtain ⟨d, hd⟩ := ih
      exact ⟨d, .signed hs hd⟩
  | left ho hi _ hr ih =>
      obtain ⟨d, hd⟩ := ih
      simpa [Context.fill] using exists_join ho hi hd hr
  | right ho hi hl _ ih =>
      obtain ⟨d, hd⟩ := ih
      simpa [Context.fill] using exists_join ho hi hl hd

/-! ## the tokens with a node in parentheses -/

/-- The tokens of a node, with or without parentheses that directly enclose them. -/
inductive Groupable (c : Context) (s : Expr) : List Token → List Token → List Token → Prop where
  | slice {before mid after : List Token} :
      Slice .addition c s before mid after → Groupable c s before mid after
  | enclosed {opening closing : Token} {before mid after : List Token} :
      opening.kind = .openParen → closing.kind = .closeParen →
      Groupable c s (before ++ [opening]) mid (closing :: after) →
      Groupable c s before (opening :: mid ++ [closing]) after

/-- Tokens with the ones in the middle between parentheses. -/
def grouped (opening closing : Token) (before mid after : List Token) : List Token :=
  before ++ opening :: mid ++ closing :: after

/-- With the tokens of a node in parentheses the same expression is derived. -/
theorem Groupable.derives_grouped (h : Groupable c s before mid after)
    (ho : opening.kind = .openParen) (hc : closing.kind = .closeParen) :
    ∃ depth, Derives depth .addition (grouped opening closing before mid after) (c.fill s) := by
  induction h with
  | slice h =>
      obtain ⟨d, hd⟩ := h.derives
      simpa [grouped] using h.replace (.parentheses ho hc hd)
  | @enclosed opening' closing' before mid after ho' hc' _ ih =>
      obtain ⟨d, hd⟩ := ih
      -- the new pair has been put inside the other one, and changes places with it
      refine ⟨d, hd.of_outline ?_⟩
      have hopen : opening.outline = opening'.outline :=
        Token.outline_eq_of_kind (ho.trans ho'.symm) (by simp [ho'])
      have hclose : closing.outline = closing'.outline :=
        Token.outline_eq_of_kind (hc.trans hc'.symm) (by simp [hc'])
      simp [grouped, hopen, hclose]

/-- One pair of parentheses more makes one level more at most. -/
theorem height_grouped_le (ho : opening.kind = .openParen) (hc : closing.kind = .closeParen) :
    height (grouped opening closing before mid after) ≤ height (before ++ mid ++ after) + 1 := by
  rw [grouped, List.append_assoc, List.append_assoc, height_append, height_append before,
    List.cons_append, height_cons_open ho, height_append mid, height_cons_close hc,
    height_append mid]
  omega

/-! ## lines -/

/-- Whatever node of an accepted line is grouped, the line is read as the same expression.  Every
node has a slice of the tokens before the end of the line; and where one more pair of parentheses
is put around the slice of a node, with or without parentheses that directly enclose it already,
the limits that have room for the tokens accept them as the same expression, and no other limit
does.  One level more is room enough. -/
theorem readTokens_grouped (h : readTokens limit ts = .ok e) (hfill : c.fill s = e) :
    ∃ rest, ts = beforeEnd ts ++ rest ∧ HasSlice .addition c s (beforeEnd ts) ∧
      ∀ before mid after opening closing, beforeEnd ts = before ++ mid ++ after →
        Groupable c s before mid after → opening.kind = .openParen →
        closing.kind = .closeParen →
        NestsWithin (limit + 1) (grouped opening closing before mid after) ∧
        ∀ wider, readTokens wider (grouped opening closing before mid after ++ rest) = .ok e ↔
          NestsWithin wider (grouped opening closing before mid after) := by
  have hl := isLine_of_readTokens h (fun he => by cases he)
  have hd := (readTokens_eq_ok_iff hl).mp h
  obtain ⟨t, us, hts, ht⟩ := exists_beforeEnd hl
  have hrest : Reading.isLine (t :: us) = true :=
    Reading.isLine_of_append hd.before_end (hts ▸ hl)
  refine ⟨t :: us, hts, hd.exists_slice hfill, ?_⟩
  intro before mid after opening closing heq hg ho hc
  obtain ⟨n, hn⟩ := hg.derives_grouped ho hc
  rw [hfill] at hn
  refine ⟨(height_le_iff _ _).mp ?_, fun wider => readTokens_append_iff hn hrest ht⟩
  calc
    height (grouped opening closing before mid after)
      ≤ height (before ++ mid ++ after) + 1 := height_grouped_le ho hc
    _ ≤ limit + 1 := Nat.succ_le_succ (heq ▸ hd.height_le)

/-- A difference from a difference, with a signed number on the right. -/
def chainedTokens : List Token × List Token :=
  ([⟨.number, ['8']⟩, Kind.minus.token, ⟨.number, ['3']⟩],
   [Kind.minus.token, Kind.minus.token, ⟨.number, ['2']⟩])

/-- The first difference, which is on the left of the other, may be in parentheses. -/
theorem readTokens_chained :
    ∃ e, readTokens 0 (chainedTokens.1 ++ chainedTokens.2 ++ [.endOfLine]) = .ok e ∧
      ∃ c s, Context.fill c s = e ∧ Groupable c s [] chainedTokens.1 chainedTokens.2 ∧
        readTokens 1 (grouped Kind.openParen.token Kind.closeParen.token [] chainedTokens.1
          chainedTokens.2 ++ [.endOfLine]) = .ok e := by
  have hl : Derives 0 .multiplication [⟨.number, ['8']⟩] _ := .factor (.unsigned (.number rfl rfl))
  have hr : Derives 0 .multiplication [⟨.number, ['3']⟩] _ := .factor (.unsigned (.number rfl rfl))
  have hs : Derives 0 .multiplication [Kind.minus.token, ⟨.number, ['2']⟩] _ :=
    .factor (.signed rfl (.number rfl rfl))
  have hslice : Slice .addition (.left .sub .hole _) _ [] chainedTokens.1 chainedTokens.2 :=
    .left rfl rfl (.binary rfl rfl (.term hl) hr) hs
  have hread : readTokens 0 (chainedTokens.1 ++ chainedTokens.2 ++ [.endOfLine]) = .ok _ :=
    (readTokens_eq_ok_iff rfl).mpr (.add (.add (.term hl) rfl hr) rfl hs)
  obtain ⟨rest, hrest, -, h⟩ := readTokens_grouped hread (c := .left .sub .hole _) rfl
  obtain rfl := List.append_cancel_left hrest
  have hgrouped := h [] _ _ Kind.openParen.token Kind.closeParen.token rfl (.slice hslice) rfl rfl
  exact ⟨_, hread, _, _, rfl, .slice hslice, (hgrouped.2 1).mpr hgrouped.1⟩

end LineCalc
