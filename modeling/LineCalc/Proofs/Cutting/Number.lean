import LineCalc.Lexeme
import Mathlib.Data.List.TakeWhile

/-!
# LineCalc.Proofs.Cutting.Number

The numbers of a line.  A number is digits with possibly a point and digits
after them (`pointed_of_isNumber`); what may be left of one after some of its
first digits may lack the digits before the point (`isNumberBody_iff`).  The
longest one at the front of a text is found without looking back: all the
digits, then the point if it may stand there, then all the digits after it
(`longestFront_isNumberBody`, `longestFront_numberFront`).
-/

namespace LineCalc

open Text

/-! ## the form of a number -/

/-- One character or more of a class, then possibly a point and further characters of it, of which
there may be none only with `trailingDot`. -/
inductive Pointed (trailingDot : Bool) (p : Char → Bool) : List Char → Prop where
  | whole {ds : List Char} : ds ≠ [] → (∀ d ∈ ds, p d = true) → Pointed trailingDot p ds
  | point {ds fs : List Char} : ds ≠ [] → (∀ d ∈ ds, p d = true) → (∀ f ∈ fs, p f = true) →
      (trailingDot = true ∨ fs ≠ []) → Pointed trailingDot p (ds ++ '.' :: fs)

namespace Pointed

variable {trailingDot : Bool} {p q : Char → Bool} {cs : List Char}

/-- A map that keeps the point takes the characters of one class to another. -/
theorem map {f : Char → Char} (hf : ∀ c, p c = true → q (f c) = true) (hpoint : f '.' = '.')
    (h : Pointed trailingDot p cs) : Pointed trailingDot q (cs.map f) := by
  have image : ∀ ds : List Char, (∀ d ∈ ds, p d = true) → ∀ d ∈ ds.map f, q d = true := by
    intro ds hd
    simpa using fun d h => hf d (hd d h)
  cases h with
  | whole hne hd => exact .whole (by simpa using hne) (image _ hd)
  | point hne hd hfs hempty =>
      rw [List.map_append, List.map_cons, hpoint]
      exact .point (by simpa using hne) (image _ hd) (image _ hfs) (by simpa using hempty)

/-- A pointed text is made of characters of the class and points. -/
theorem mem (h : Pointed trailingDot p cs) : ∀ c ∈ cs, p c = true ∨ c = '.' := by
  cases h with
  | whole _ hd => exact fun c hc => .inl (hd c hc)
  | point _ hd hf _ =>
      intro c hc
      simp only [List.mem_append, List.mem_cons] at hc
      obtain hc | hc | hc := hc
      · exact .inl (hd c hc)
      · exact .inr hc
      · exact .inl (hf c hc)

/-- A pointed text begins with a character of the class. -/
theorem exists_cons (h : Pointed trailingDot p cs) : ∃ d ds, cs = d :: ds ∧ p d = true := by
  cases h with
  | whole hne hd =>
      obtain ⟨d, ds, rfl⟩ := List.exists_cons_of_ne_nil hne
      exact ⟨d, ds, rfl, hd d List.mem_cons_self⟩
  | point hne hd _ _ =>
      obtain ⟨d, ds, rfl⟩ := List.exists_cons_of_ne_nil hne
      exact ⟨d, _, rfl, hd d List.mem_cons_self⟩

end Pointed

/-! ## where the characters of a class end -/

/-- Characters of a class before a text that does not go on with one are all that is at its
front. -/
theorem takeWhile_append_eq {p : Char → Bool} {ds cs : List Char} (hd : ∀ d ∈ ds, p d = true)
    (hc : ∀ c, cs.head? = some c → p c = false) : (ds ++ cs).takeWhile p = ds := by
  rw [List.takeWhile_append_of_pos hd]
  cases cs with
  | nil => simp
  | cons c cs => simp [hc c rfl]

/-- Dropping the characters of a class stops at the first one outside it. -/
theorem dropWhile_append_eq {p : Char → Bool} {ds cs : List Char} (hd : ∀ d ∈ ds, p d = true)
    (hc : ∀ c, cs.head? = some c → p c = false) : (ds ++ cs).dropWhile p = cs := by
  rw [List.dropWhile_append_of_pos hd]
  cases cs with
  | nil => rfl
  | cons c cs => simp [hc c rfl]

/-- Every text is characters of a class before a text that does not go on with one. -/
theorem exists_span (p : Char → Bool) (cs : List Char) :
    ∃ ds more, cs = ds ++ more ∧ (∀ d ∈ ds, p d = true) ∧
      ∀ c, more.head? = some c → p c = false := by
  refine ⟨cs.takeWhile p, cs.dropWhile p, List.takeWhile_append_dropWhile.symm,
    List.all_eq_true.mp List.all_takeWhile, fun c hc => ?_⟩
  simpa [hc] using List.head?_dropWhile_not p cs

theorem isDigit_of_head?_point {cs : List Char} {c : Char} (h : ('.' :: cs).head? = some c) :
    isDigit c = false := by
  cases h
  decide

/-- What may be left of a number after some of its first digits: digits, with possibly a point and
digits after them, of which there may be none only with `trailingDot`. -/
inductive NumberBody (trailingDot : Bool) : List Char → Prop where
  | whole {ds : List Char} : (∀ d ∈ ds, isDigit d = true) → NumberBody trailingDot ds
  | point {ds fs : List Char} : (∀ d ∈ ds, isDigit d = true) → (∀ f ∈ fs, isDigit f = true) →
      (trailingDot = true ∨ fs ≠ []) → NumberBody trailingDot (ds ++ '.' :: fs)

/-- The check of a number's text accepts exactly the number bodies. -/
theorem isNumberBody_iff {trailingDot : Bool} {cs : List Char} :
    isNumberBody trailingDot cs = true ↔ NumberBody trailingDot cs := by
  constructor
  · intro h
    obtain ⟨ds, more, rfl, hd, hmore⟩ := exists_span isDigit cs
    rw [isNumberBody, dropWhile_append_eq hd hmore] at h
    split at h
    · rw [List.append_nil]
      exact .whole hd
    · next fs =>
      rw [Bool.and_eq_true] at h
      exact .point hd (List.all_eq_true.mp h.1) (by simpa using h.2)
    · simp at h
  · intro h
    cases h with
    | whole hds => rw [isNumberBody, List.dropWhile_eq_nil_iff.mpr hds]
    | @point ds fs hds hfs hempty =>
        rw [isNumberBody, dropWhile_append_eq hds fun c hc => isDigit_of_head?_point hc]
        simpa [Bool.and_eq_true, List.all_eq_true] using ⟨hfs, hempty⟩

/-- A pointed text of digits is a number body. -/
theorem Pointed.numberBody {trailingDot : Bool} {cs : List Char}
    (h : Pointed trailingDot isDigit cs) : NumberBody trailingDot cs := by
  cases h with
  | whole _ hd => exact .whole hd
  | point _ hd hf hempty => exact .point hd hf hempty

/-- What begins with a digit has a digit before its point. -/
theorem NumberBody.pointed {trailingDot : Bool} {cs : List Char} (h : NumberBody trailingDot cs)
    (hhead : cs.head?.any isDigit = true) : Pointed trailingDot isDigit cs := by
  cases h with
  | whole hd => exact .whole (by rintro rfl; simp at hhead) hd
  | point hd hf hempty =>
      refine .point ?_ hd hf hempty
      rintro rfl
      have hpoint : isDigit '.' = true := by simpa using hhead
      exact absurd hpoint (by decide)

/-- A number of an expression is digits, with possibly a point and digits after them. -/
theorem pointed_of_isNumber {trailingDot : Bool} {cs : List Char}
    (h : isNumber trailingDot cs = true) : Pointed trailingDot isDigit cs := by
  rw [isNumber, Bool.and_eq_true] at h
  exact (isNumberBody_iff.mp h.2).pointed h.1

/-- A pointed text of digits passes the number check. -/
theorem isNumber_of_pointed {trailingDot : Bool} {cs : List Char}
    (h : Pointed trailingDot isDigit cs) : isNumber trailingDot cs = true := by
  obtain ⟨d, ds, hcs, hd⟩ := h.exists_cons
  rw [isNumber, Bool.and_eq_true]
  exact ⟨by simp [hcs, hd], isNumberBody_iff.mpr h.numberBody⟩

/-! ## the longest number -/

/-- The point of a number and the digits after it, where they come next. -/
def pointFront (trailingDot : Bool) : List Char → List Char
  | '.' :: cs => if trailingDot || cs.head?.any isDigit then '.' :: cs.takeWhile isDigit else []
  | _ => []

/-- The part of the text a number takes when it is read from here. -/
def numberFront (trailingDot : Bool) (cs : List Char) : List Char :=
  cs.takeWhile isDigit ++ pointFront trailingDot (cs.dropWhile isDigit)

/-- The digits at the front of a text before its first other character, which is a point. -/
theorem numberFront_point {trailingDot : Bool} {ds cs : List Char}
    (hd : ∀ d ∈ ds, isDigit d = true) :
    numberFront trailingDot (ds ++ '.' :: cs) = ds ++ pointFront trailingDot ('.' :: cs) := by
  have hpoint : ∀ c, ('.' :: cs).head? = some c → isDigit c = false :=
    fun _ => isDigit_of_head?_point
  rw [numberFront, takeWhile_append_eq hd hpoint, dropWhile_append_eq hd hpoint]

theorem isPrefix_pointFront (trailingDot : Bool) (cs : List Char) :
    pointFront trailingDot cs <+: cs := by
  unfold pointFront
  split
  · split
    · exact (List.cons_prefix_cons ..).mpr ⟨rfl, List.takeWhile_prefix _⟩
    · exact List.nil_prefix
  · exact List.nil_prefix

/-- A number takes a front of the text. -/
theorem isPrefix_numberFront (trailingDot : Bool) (cs : List Char) :
    numberFront trailingDot cs <+: cs := by
  have h := (List.prefix_append_right_inj (cs.takeWhile isDigit)).mpr
    (isPrefix_pointFront trailingDot (cs.dropWhile isDigit))
  rwa [List.takeWhile_append_dropWhile] at h

/-- What a number takes is a number body. -/
theorem numberBody_numberFront (trailingDot : Bool) (cs : List Char) :
    NumberBody trailingDot (numberFront trailingDot cs) := by
  have hd : ∀ d ∈ cs.takeWhile isDigit, isDigit d = true := List.all_eq_true.mp List.all_takeWhile
  unfold numberFront pointFront
  split
  · next fs _ =>
    split
    · next hpoint =>
      refine .point hd (List.all_eq_true.mp List.all_takeWhile) ?_
      obtain hdot | hfs := (Bool.or_eq_true ..).mp hpoint
      · exact .inl hdot
      · refine .inr ?_
        cases fs with
        | nil => simp at hfs
        | cons f fs =>
            have hf : isDigit f = true := by simpa using hfs
            simp [hf]
    · rw [List.append_nil]
      exact .whole hd
  · rw [List.append_nil]
    exact .whole hd

/-- Nothing of this form at the front of a text is longer than what is found there. -/
theorem length_le_numberFront {trailingDot : Bool} {other more : List Char}
    (h : NumberBody trailingDot other) :
    other.length ≤ (numberFront trailingDot (other ++ more)).length := by
  cases h with
  | whole hd =>
      rw [numberFront, List.takeWhile_append_of_pos hd, List.append_assoc, List.length_append]
      omega
  | @point ds fs hd hf hempty =>
      have hpoint : (trailingDot || (fs ++ more).head?.any isDigit) = true := by
        obtain hdot | hne := hempty
        · simp [hdot]
        · obtain ⟨f, fs, rfl⟩ := List.exists_cons_of_ne_nil hne
          simp [hf f List.mem_cons_self]
      rw [List.append_assoc, List.cons_append, numberFront_point hd, pointFront, if_pos hpoint,
        List.takeWhile_append_of_pos hf]
      simp only [List.length_append, List.length_cons]
      omega

/-- What is found at the front of a text is the longest there that may be left of a number. -/
theorem longestFront_isNumberBody (trailingDot : Bool) (cs : List Char) :
    LongestFront (isNumberBody trailingDot) (numberFront trailingDot cs) cs where
  front_of := isPrefix_numberFront trailingDot cs
  holds := isNumberBody_iff.mpr (numberBody_numberFront trailingDot cs)
  longest := by
    rintro other ⟨more, rfl⟩ ho
    exact length_le_numberFront (isNumberBody_iff.mp ho)

/-- A number that begins with a digit keeps it. -/
theorem head?_numberFront {trailingDot : Bool} {cs : List Char}
    (h : cs.head?.any isDigit = true) : (numberFront trailingDot cs).head?.any isDigit = true := by
  cases cs with
  | nil => simp at h
  | cons c cs =>
      have hc : isDigit c = true := by simpa using h
      simp [numberFront, hc]

/-- Where a text begins with a digit, it is the longest number there. -/
theorem longestFront_numberFront {trailingDot : Bool} {cs : List Char}
    (h : cs.head?.any isDigit = true) :
    LongestFront (isNumber trailingDot) (numberFront trailingDot cs) cs where
  front_of := isPrefix_numberFront trailingDot cs
  holds := by
    rw [isNumber, Bool.and_eq_true]
    exact ⟨head?_numberFront h, (longestFront_isNumberBody trailingDot cs).holds⟩
  longest := by
    intro other hfront ho
    rw [isNumber, Bool.and_eq_true] at ho
    exact (longestFront_isNumberBody trailingDot cs).longest other hfront ho.2

end LineCalc
