import Mathlib
import Handheld.Console.Io
import Handheld.Proofs.Word

/-!
# Lanes bit by bit

A register after a write has the bits of the value where the mask covers them, and its own
elsewhere. So what a write does to a register is settled by the covered bits within the width of
the register, and a write to some bytes followed by a write to others is one write to all of them.
-/

namespace Handheld.Console

open Word

/-! ## Halves of registers -/

theorem testBit_halfOf (x : UInt64) (high : Bool) {i : Nat} (hi : i < 32) :
    (halfOf x high).toNat.testBit i = x.toNat.testBit (if high then 32 + i else i) := by
  cases high with
  | false =>
    show x.toUInt32.toNat.testBit i = _
    rw [UInt64.toNat_toUInt32, Nat.testBit_mod_two_pow]
    simp [hi]
  | true =>
    have hamount : (32 : UInt64).toNat % 64 = 32 := rfl
    show ((x >>> 32).toUInt32).toNat.testBit i = _
    rw [UInt64.toNat_toUInt32, Nat.testBit_mod_two_pow, UInt64.toNat_shiftRight, hamount,
      Nat.testBit_shiftRight]
    simp [hi]

/-- A 64-bit register is given by its halves. -/
theorem ext_halfOf {x y : UInt64} (h : ∀ high, halfOf x high = halfOf y high) : x = y := by
  rw [← UInt64.toNat_inj]
  refine Nat.eq_of_testBit_eq fun i => ?_
  have hbit : ∀ (high : Bool) (j : Nat), j < 32 → x.toNat.testBit (if high then 32 + j else j) =
      y.toNat.testBit (if high then 32 + j else j) := by
    intro high j hj
    rw [← testBit_halfOf x high hj, ← testBit_halfOf y high hj, h high]
  by_cases hlow : i < 32
  · exact hbit false i hlow
  · by_cases hhigh : i < 64
    · have hi := hbit true (i - 32) (by omega)
      rwa [if_pos rfl, Nat.add_sub_cancel' (by omega)] at hi
    · have hpow : 2 ^ 64 ≤ 2 ^ i := Nat.pow_le_pow_right (by decide) (by omega)
      rw [Nat.testBit_lt_two_pow (x.toNat_lt.trans_le hpow),
        Nat.testBit_lt_two_pow (y.toNat_lt.trans_le hpow)]

namespace Lanes

/-! ## Covered bits -/

/-- Whether a bit is covered. -/
def covers (l : Lanes) (i : Nat) : Bool := l.mask.toNat.testBit i

theorem testBit_raw (l : Lanes) (i : Nat) :
    l.raw.toNat.testBit i = (l.covers i && l.value.toNat.testBit i) := by
  show (l.value &&& l.mask).toNat.testBit i = _
  rw [UInt32.toNat_and, Nat.testBit_and, Bool.and_comm]
  rfl

theorem testBit_merge (l : Lanes) (old : UInt32) {i : Nat} (hi : i < 32) :
    (l.merge old).toNat.testBit i =
      if l.covers i = true then l.value.toNat.testBit i else old.toNat.testBit i := by
  show ((old &&& ~~~l.mask) ||| (l.value &&& l.mask)).toNat.testBit i = _
  rw [UInt32.toNat_or, Nat.testBit_or, UInt32.toNat_and, Nat.testBit_and, UInt32.toNat_and,
    Nat.testBit_and, testBit_not _ hi]
  unfold covers
  cases l.mask.toNat.testBit i <;> simp

theorem testBit_merge16 (l : Lanes) (old : UInt16) {i : Nat} (hi : i < 16) :
    (l.merge16 old).toNat.testBit i =
      if l.covers i = true then l.value.toNat.testBit i else old.toNat.testBit i := by
  rw [merge16, testBit_toUInt16 _ hi, testBit_merge _ _ (by omega), UInt16.toNat_toUInt32]

theorem halfOf_mergeHalf (l : Lanes) (high high' : Bool) (old : UInt64) :
    halfOf (l.mergeHalf high old) high' =
      if high' = high then l.merge (halfOf old high) else halfOf old high' := by
  have hlowMask : (0xFFFFFFFF : UInt64).toNat = 2 ^ 32 - 1 := rfl
  have hhighMask : (0xFFFFFFFF00000000 : UInt64).toNat = (2 ^ 32 - 1) <<< 32 := rfl
  have hamount : (32 : UInt64).toNat % 64 = 32 := rfl
  refine ext_testBit fun i hi => ?_
  cases high with
  | false =>
    have hword : (l.mergeHalf false old).toNat =
        (old.toNat &&& (2 ^ 32 - 1) <<< 32) ||| (l.merge (halfOf old false)).toNat := by
      show ((old &&& 0xFFFFFFFF00000000) ||| (l.merge old.toUInt32).toUInt64).toNat = _
      rw [UInt64.toNat_or, UInt64.toNat_and, hhighMask, UInt32.toNat_toUInt64]
      rfl
    have hsmall : (l.merge (halfOf old false)).toNat < 2 ^ 32 := (l.merge _).toNat_lt
    rw [testBit_halfOf _ _ hi, hword, Nat.testBit_or, Nat.testBit_and, Nat.testBit_shiftLeft,
      Nat.testBit_two_pow_sub_one]
    cases high' with
    | false => simp [show ¬ 32 ≤ i by omega]
    | true =>
      have hbeyond : (l.merge (halfOf old false)).toNat.testBit (32 + i) = false :=
        Nat.testBit_lt_two_pow (hsmall.trans_le (Nat.pow_le_pow_right (by decide) (by omega)))
      rw [if_pos rfl, hbeyond, if_neg (by decide), testBit_halfOf _ _ hi]
      simp [hi]
  | true =>
    have hword : (l.mergeHalf true old).toNat =
        ((l.merge (halfOf old true)).toNat <<< 32 % 2 ^ 64) |||
          (old.toNat &&& (2 ^ 32 - 1)) := by
      show ((l.merge (old >>> 32).toUInt32).toUInt64 <<< 32 ||| (old &&& 0xFFFFFFFF)).toNat = _
      rw [UInt64.toNat_or, UInt64.toNat_and, hlowMask, UInt64.toNat_shiftLeft, hamount,
        UInt32.toNat_toUInt64]
      rfl
    rw [testBit_halfOf _ _ hi, hword, Nat.testBit_or, Nat.testBit_and, Nat.testBit_mod_two_pow,
      Nat.testBit_shiftLeft, Nat.testBit_two_pow_sub_one]
    cases high' with
    | false =>
      rw [if_neg (by decide), if_neg (by decide), testBit_halfOf _ _ hi]
      simp [hi, show ¬ 32 ≤ i by omega]
    | true => simp [show 32 + i < 64 by omega]

/-! ## Lanes that do the same -/

/-- The same of the first bits are covered, by the same values. -/
def Alike (bits : Nat) (l l' : Lanes) : Prop :=
  ∀ i < bits, l.covers i = l'.covers i ∧
    (l.covers i = true → l.value.toNat.testBit i = l'.value.toNat.testBit i)

/-- The first bits are covered by one of two lanes, which do not overlap. -/
structure Joins (bits : Nat) (l l₁ l₂ : Lanes) : Prop where
  covers : ∀ i < bits, l.covers i = (l₁.covers i || l₂.covers i)
  apart : ∀ i < bits, l₁.covers i = true → l₂.covers i = false
  first : ∀ i < bits, l₁.covers i = true → l.value.toNat.testBit i = l₁.value.toNat.testBit i
  second : ∀ i < bits, l₂.covers i = true → l.value.toNat.testBit i = l₂.value.toNat.testBit i

variable {l l' l₁ l₂ : Lanes}

theorem Alike.merge (h : Alike 32 l l') (old : UInt32) : l.merge old = l'.merge old := by
  refine ext_testBit fun i hi => ?_
  obtain ⟨hcovers, hvalue⟩ := h i hi
  rw [testBit_merge _ _ hi, testBit_merge _ _ hi, ← hcovers]
  exact ite_congr rfl hvalue fun _ => rfl

theorem Alike.merge16 (h : Alike 16 l l') (old : UInt16) : l.merge16 old = l'.merge16 old := by
  refine ext_testBit16 fun i hi => ?_
  obtain ⟨hcovers, hvalue⟩ := h i hi
  rw [testBit_merge16 _ _ hi, testBit_merge16 _ _ hi, ← hcovers]
  exact ite_congr rfl hvalue fun _ => rfl

theorem Alike.mergeHalf (h : Alike 32 l l') (high : Bool) (old : UInt64) :
    l.mergeHalf high old = l'.mergeHalf high old := by
  refine ext_halfOf fun high' => ?_
  rw [halfOf_mergeHalf, halfOf_mergeHalf, h.merge]

theorem Alike.testBit_raw {bits : Nat} (h : Alike bits l l') {i : Nat} (hi : i < bits) :
    l.raw.toNat.testBit i = l'.raw.toNat.testBit i := by
  obtain ⟨hcovers, hvalue⟩ := h i hi
  rw [Lanes.testBit_raw, Lanes.testBit_raw, ← hcovers]
  cases hcovered : l.covers i with
  | false => rfl
  | true => rw [hvalue hcovered]

/-- The low byte of what is covered. -/
theorem Alike.raw_byte (h : Alike 8 l l') : l.raw &&& 0xFF = l'.raw &&& 0xFF := by
  have hmask : (0xFF : UInt32).toNat = 2 ^ 8 - 1 := rfl
  refine ext_testBit fun i _ => ?_
  rw [UInt32.toNat_and, Nat.testBit_and, UInt32.toNat_and, Nat.testBit_and, hmask,
    Nat.testBit_two_pow_sub_one]
  by_cases hi : i < 8
  · rw [h.testBit_raw hi]
  · simp [hi]

/-! ## Lanes one after the other -/

theorem Joins.merge_merge (h : Joins 32 l l₁ l₂) (old : UInt32) :
    l₂.merge (l₁.merge old) = l.merge old := by
  refine ext_testBit fun i hi => ?_
  rw [testBit_merge _ _ hi, testBit_merge _ _ hi, testBit_merge _ _ hi, h.covers i hi]
  cases h₁ : l₁.covers i with
  | true =>
    rw [h.apart i hi h₁, h.first i hi h₁]
    rfl
  | false =>
    cases h₂ : l₂.covers i with
    | true =>
      rw [h.second i hi h₂]
      rfl
    | false => rfl

theorem Joins.merge16_merge16 (h : Joins 16 l l₁ l₂) (old : UInt16) :
    l₂.merge16 (l₁.merge16 old) = l.merge16 old := by
  refine ext_testBit16 fun i hi => ?_
  rw [testBit_merge16 _ _ hi, testBit_merge16 _ _ hi, testBit_merge16 _ _ hi, h.covers i hi]
  cases h₁ : l₁.covers i with
  | true =>
    rw [h.apart i hi h₁, h.first i hi h₁]
    rfl
  | false =>
    cases h₂ : l₂.covers i with
    | true =>
      rw [h.second i hi h₂]
      rfl
    | false => rfl

theorem Joins.mergeHalf_mergeHalf (h : Joins 32 l l₁ l₂) (high : Bool) (old : UInt64) :
    l₂.mergeHalf high (l₁.mergeHalf high old) = l.mergeHalf high old := by
  refine ext_halfOf fun high' => ?_
  rw [halfOf_mergeHalf, halfOf_mergeHalf, halfOf_mergeHalf, halfOf_mergeHalf]
  by_cases hhalf : high' = high
  · rw [if_pos hhalf, if_pos hhalf, if_pos rfl, h.merge_merge]
  · rw [if_neg hhalf, if_neg hhalf, if_neg hhalf]

theorem Joins.raw_or_raw (h : Joins 32 l l₁ l₂) : l.raw = l₁.raw ||| l₂.raw := by
  refine ext_testBit fun i hi => ?_
  rw [UInt32.toNat_or, Nat.testBit_or, testBit_raw, testBit_raw, testBit_raw, h.covers i hi]
  cases h₁ : l₁.covers i with
  | true =>
    rw [h.apart i hi h₁, h.first i hi h₁]
    simp
  | false =>
    cases h₂ : l₂.covers i with
    | true =>
      rw [h.second i hi h₂]
      simp
    | false => rfl

end Lanes
end Handheld.Console
