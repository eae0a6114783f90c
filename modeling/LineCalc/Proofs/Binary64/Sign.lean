import LineCalc.Binary64
import Mathlib

/-!
# LineCalc.Proofs.Binary64.Sign

A double is its sign and its pattern (`ofPattern_pattern`), and to negate it
is to turn the sign around: `neg_ofPattern`.  The second is no identity of
bits.  Core defines negation on unpacked floats, which do not tell one
`NaN` from another, so both sides are brought to what they are unpacked to.

That a float is unpacked and packed again without loss is a lemma of
Batteries, which no module of Mathlib but Mathlib itself imports.
-/

namespace LineCalc.Binary64

open Float.Model

/-- A double is put together from its sign and its pattern. -/
theorem ofPattern_pattern (x : Float) : ofPattern (isNegative x) (pattern x) = x := by
  have hlt := x.toBits.toNat_lt
  have hbits : (if isNegative x then Nat.pow 2 63 else 0) + pattern x = x.toBits.toNat := by
    simp only [isNegative, pattern, decide_eq_true_eq, Nat.pow_eq]
    split <;> omega
  rw [ofPattern, hbits]
  simp

/-- Two doubles are the same bit by bit, or neither of them is a number. -/
def Same (x y : Float) : Prop := x.toBits = y.toBits ∨ (x.isNaN = true ∧ y.isNaN = true)

/-- There is one `NaN`, so that is equality. -/
theorem eq_of_same {x y : Float} (h : Same x y) : x = y := by
  obtain h | ⟨hx, hy⟩ := h
  · exact Float.toBits_inj.mp h
  · rw [Float.isNaN_eq_decide_eq_nan, decide_eq_true_eq] at hx hy
    rw [hx, hy]

/-! ## packed and unpacked floats -/

section

variable {spec : Format} (s : UnpackedFloat.Sign) (e : BitVec spec.exponentBits)
  (m : BitVec spec.mantissaBitsWithoutImplicit)

/-- The bits of a float, as a number: its sign, its exponent and its mantissa side by side. -/
theorem toNat_packComponents : (UnpackedFloat.packComponents spec s e m).toNat =
    (s.toBitVec.toNat * 2 ^ spec.exponentBits + e.toNat) * 2 ^ spec.mantissaBitsWithoutImplicit +
      m.toNat := by
  rw [UnpackedFloat.packComponents, BitVec.toNat_append, BitVec.toNat_append,
    ← Nat.shiftLeft_add_eq_or_of_lt e.isLt, ← Nat.shiftLeft_add_eq_or_of_lt m.isLt,
    Nat.shiftLeft_eq, Nat.shiftLeft_eq]

/-- To negate a float is to turn its sign bit around. -/
theorem neg_unpack : (UnpackedFloat.unpack spec (UnpackedFloat.packComponents spec s e m)).neg =
    UnpackedFloat.unpack spec (UnpackedFloat.packComponents spec (-s) e m) := by
  simp only [UnpackedFloat.unpack, UnpackedFloat.unpackExponent_packComponents,
    UnpackedFloat.unpackMantissa_packComponents, UnpackedFloat.unpackSign_packComponents,
    UnpackedFloat.Sign.ofBitVec_toBitVec]
  split
  · split <;> rfl
  · split
    · split <;> rfl
    · rfl

end

/-- A float that is packed again is the same, or `NaN` as before. -/
theorem unpack_pack_unpack (b : BitVec 64) :
    UnpackedFloat.unpack .binary64 ((UnpackedFloat.unpack .binary64 b).pack .binary64) =
      UnpackedFloat.unpack .binary64 b := by
  have hpack := @UnpackedFloat.pack_unpack .binary64 b (by decide)
  rw [hpack]
  split
  · next h =>
    have h' := of_decide_eq_true h
    rw [UnpackedFloat.unpack_packedNaN]
    simp only [UnpackedFloat.unpack, h'.1, h'.2, ↓reduceIte]
  · rfl

/-- Negation by what a float is unpacked to. -/
theorem neg_ofBits (b : UInt64) :
    -Float.ofBits b = .ofModel (.pack (UnpackedFloat.unpack .binary64 b.toBitVec).neg) := by
  have h : -Float.ofBits b = .ofModel (.pack (UnpackedFloat.unpack .binary64
      ((UnpackedFloat.unpack .binary64 b.toBitVec).pack .binary64)).neg) := rfl
  rw [h, unpack_pack_unpack]

/-! ## the sign of a pattern -/

/-- A sign and a pattern as the components of a float. -/
theorem toBitVec_ofPattern {n : Nat} (h : n < 2 ^ 63) (negative : Bool) :
    ((if negative then Nat.pow 2 63 else 0) + n).toUInt64.toBitVec =
      UnpackedFloat.packComponents .binary64 (if negative then .negative else .positive)
        (BitVec.ofNat 11 (n / 2 ^ 52)) (BitVec.ofNat 52 n) := by
  apply BitVec.eq_of_toNat_eq
  rw [toNat_packComponents]
  cases negative <;> simp [UnpackedFloat.Sign.toBitVec, Format.binary64] <;> omega

/-- To negate what a pattern stands for is to turn the sign around. -/
theorem neg_ofPattern {n : Nat} (h : n < 2 ^ 63) : -ofPattern false n = ofPattern true n := by
  rw [ofPattern, neg_ofBits, toBitVec_ofPattern h false, neg_unpack, ofPattern, Float.ofBits,
    Float.Model.ofBits, toBitVec_ofPattern h true]
  rfl

/-- The patterns up to `infinity` are numbers. -/
theorem isNaN_ofPattern {n : Nat} (h : n ≤ infinity) : (ofPattern false n).isNaN = false := by
  have hle : n ≤ 2047 * 2 ^ 52 := h
  have hunpack : ∀ b : UInt64, (Float.ofBits b).isNaN = (UnpackedFloat.unpack .binary64
      ((UnpackedFloat.unpack .binary64 b.toBitVec).pack .binary64)).isNaN := fun _ => rfl
  rw [ofPattern, hunpack, unpack_pack_unpack, toBitVec_ofPattern (by omega) false]
  simp only [UnpackedFloat.unpack, UnpackedFloat.unpackExponent_packComponents,
    UnpackedFloat.unpackMantissa_packComponents]
  split
  · next he =>
    -- the greatest exponent belongs to one pattern alone, whose mantissa is zero
    have hexponent : n / 2 ^ 52 % 2 ^ 11 = 2047 := by
      simpa [Format.binary64] using congrArg BitVec.toNat he
    have hmantissa : BitVec.ofNat 52 n = 0#52 := by
      apply BitVec.eq_of_toNat_eq
      simp
      omega
    rw [if_pos hmantissa]
    rfl
  · split
    · split <;> rfl
    · rfl

end LineCalc.Binary64
