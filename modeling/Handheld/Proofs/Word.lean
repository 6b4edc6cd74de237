import Mathlib
import Handheld.Address

/-!
# Bits of words

A word of 32 bits through the binary digits of the number that it denotes: single bits of the
bitwise operations, shifts and fields, and addresses that are rounded down. The same of words of 16
bits, as far as device registers need it.
-/

namespace Handheld

namespace Word

theorem or_and (a b mask : UInt32) : (a ||| b) &&& mask = (a &&& mask) ||| (b &&& mask) := by
  rw [← UInt32.toBitVec_inj]
  exact BitVec.and_or_distrib_right

/-! ## Single bits -/

theorem toNat_one_shiftLeft {i : Nat} (hi : i < 32) :
    ((1 : UInt32) <<< UInt32.ofNat i).toNat = 2 ^ i := by
  have hamount : (UInt32.ofNat i).toNat = i := by
    rw [UInt32.toNat_ofNat']
    exact Nat.mod_eq_of_lt (by omega)
  have hpow : 2 ^ i < 2 ^ 32 := Nat.pow_lt_pow_right (by decide) hi
  rw [UInt32.toNat_shiftLeft, hamount, Nat.mod_eq_of_lt hi, Nat.shiftLeft_eq]
  show 1 * 2 ^ i % 2 ^ 32 = 2 ^ i
  rw [Nat.one_mul, Nat.mod_eq_of_lt hpow]

theorem isBit_eq_testBit (x : UInt32) {i : Nat} (hi : i < 32) :
    isBit x i = x.toNat.testBit i := by
  have hmask : (x &&& ((1 : UInt32) <<< UInt32.ofNat i)).toNat =
      (x.toNat.testBit i).toNat * 2 ^ i := by
    rw [UInt32.toNat_and, toNat_one_shiftLeft hi, Nat.and_two_pow]
  have hzero : x &&& ((1 : UInt32) <<< UInt32.ofNat i) = 0 ↔ x.toNat.testBit i = false := by
    rw [← UInt32.toNat_inj, hmask]
    simp
  show ((x &&& ((1 : UInt32) <<< UInt32.ofNat i)) != 0) = _
  rw [bne_eq, Bool.eq_iff_iff]
  simp [hzero]

/-- A single bit by division. -/
theorem isBit_eq_decide (x : UInt32) {i : Nat} (hi : i < 32) :
    isBit x i = decide (x.toNat / 2 ^ i % 2 = 1) := by
  rw [isBit_eq_testBit x hi, Nat.testBit_eq_decide_div_mod_eq]

/-- The lowest bit tells odd numbers. -/
theorem isBit_zero (x : UInt32) : isBit x 0 = decide (x.toNat % 2 = 1) := by
  rw [isBit_eq_testBit x (by decide), Nat.testBit_zero]

theorem isBit_or (x y : UInt32) {i : Nat} (hi : i < 32) :
    isBit (x ||| y) i = (isBit x i || isBit y i) := by
  rw [isBit_eq_testBit _ hi, isBit_eq_testBit _ hi, isBit_eq_testBit _ hi, UInt32.toNat_or,
    Nat.testBit_or]

theorem isBit_and (x y : UInt32) {i : Nat} (hi : i < 32) :
    isBit (x &&& y) i = (isBit x i && isBit y i) := by
  rw [isBit_eq_testBit _ hi, isBit_eq_testBit _ hi, isBit_eq_testBit _ hi, UInt32.toNat_and,
    Nat.testBit_and]

theorem isBit_not (x : UInt32) {i : Nat} (hi : i < 32) : isBit (~~~x) i = !isBit x i := by
  rw [isBit_eq_testBit _ hi, isBit_eq_testBit _ hi, UInt32.toNat_not]
  show (2 ^ 32 - 1 - x.toNat).testBit i = _
  rw [Nat.sub_sub, Nat.add_comm, Nat.testBit_two_pow_sub_succ x.toNat_lt]
  simp [hi]

theorem isBit_one_shiftLeft {i j : Nat} (hi : i < 32) (hj : j < 32) :
    isBit ((1 : UInt32) <<< UInt32.ofNat i) j = decide (i = j) := by
  rw [isBit_eq_testBit _ hj, toNat_one_shiftLeft hi, Nat.testBit_two_pow]

/-- A word is given by its bits. -/
theorem ext_isBit {x y : UInt32} (h : ∀ i < 32, isBit x i = isBit y i) : x = y := by
  rw [← UInt32.toNat_inj]
  refine Nat.eq_of_testBit_eq fun i => ?_
  by_cases hi : i < 32
  · rw [← isBit_eq_testBit x hi, ← isBit_eq_testBit y hi, h i hi]
  · -- Beyond the word there are no digits.
    have hpow : 2 ^ 32 ≤ 2 ^ i := Nat.pow_le_pow_right (by decide) (by omega)
    rw [Nat.testBit_lt_two_pow (x.toNat_lt.trans_le hpow),
      Nat.testBit_lt_two_pow (y.toNat_lt.trans_le hpow)]

/-- A forced bit reads as it was forced, all others read as before. -/
theorem isBit_setBit (x : UInt32) (state : Bool) {i j : Nat} (hi : i < 32) (hj : j < 32) :
    isBit (setBit x i state) j = if j = i then state else isBit x j := by
  have hforced : isBit (UInt32.ofNat state.toNat <<< UInt32.ofNat i) j =
      (state && decide (i = j)) := by
    cases state with
    | false =>
      have hzero : UInt32.ofNat false.toNat <<< UInt32.ofNat i = 0 := UInt32.zero_shiftLeft
      rw [hzero, isBit_eq_testBit _ hj]
      exact Nat.zero_testBit j
    | true => exact isBit_one_shiftLeft hi hj
  show isBit ((x &&& ~~~((1 : UInt32) <<< UInt32.ofNat i)) |||
    (UInt32.ofNat state.toNat <<< UInt32.ofNat i)) j = _
  rw [isBit_or _ _ hj, isBit_and _ _ hj, isBit_not _ hj, isBit_one_shiftLeft hi hj, hforced]
  by_cases h : j = i
  · simp [h]
  · simp [h, Ne.symm h]

/-- A bit that is forced twice is as it was forced last. -/
theorem setBit_setBit (x : UInt32) (state state' : Bool) {i : Nat} (hi : i < 32) :
    setBit (setBit x i state) i state' = setBit x i state' := by
  apply ext_isBit
  intro j hj
  rw [isBit_setBit _ _ hi hj, isBit_setBit _ _ hi hj, isBit_setBit _ _ hi hj]
  by_cases h : j = i
  · rw [if_pos h, if_pos h]
  · rw [if_neg h, if_neg h, if_neg h]

theorem rotateRight_zero (x : UInt32) : rotateRight x 0 = x := by
  have hleft : x <<< (32 - 0 : UInt32) = x := by
    rw [← UInt32.toNat_inj, UInt32.toNat_shiftLeft]
    exact Nat.mod_eq_of_lt x.toNat_lt
  rw [rotateRight, UInt32.shiftRight_zero, hleft, UInt32.or_self]

/-! ## Fields -/

theorem shl_of_lt (x : UInt32) {amount : Nat} (h : amount < 32) :
    shl x amount = x <<< UInt32.ofNat amount := if_pos h

theorem shr_of_lt (x : UInt32) {amount : Nat} (h : amount < 32) :
    shr x amount = x >>> UInt32.ofNat amount := if_pos h

/-- A field of bits by division. -/
theorem toNat_bits (x : UInt32) {start len : Nat} (hstart : start < 32) (hlen : len < 32) :
    (bits x start len).toNat = x.toNat / 2 ^ start % 2 ^ len := by
  have hamount : (UInt32.ofNat start).toNat % 32 = start := by
    rw [UInt32.toNat_ofNat']
    omega
  have hone : (1 : UInt32) ≤ 1 <<< UInt32.ofNat len := by
    rw [UInt32.le_iff_toNat_le, toNat_one_shiftLeft hlen]
    exact Nat.two_pow_pos len
  have hmask : (shl (1 : UInt32) len - 1).toNat = 2 ^ len - 1 := by
    rw [shl_of_lt _ hlen, UInt32.toNat_sub_of_le _ _ hone, toNat_one_shiftLeft hlen]
    rfl
  have hshift : (shr x start).toNat = x.toNat / 2 ^ start := by
    rw [shr_of_lt _ hstart, UInt32.toNat_shiftRight, hamount, Nat.shiftRight_eq_div_pow]
  show (shr x start &&& (shl (1 : UInt32) len - 1)).toNat = _
  rw [UInt32.toNat_and, hmask, hshift, Nat.and_two_pow_sub_one_eq_mod]

/-! ## Digits -/

theorem ext_testBit {x y : UInt32} (h : ∀ i < 32, x.toNat.testBit i = y.toNat.testBit i) :
    x = y := by
  refine ext_isBit fun i hi => ?_
  rw [isBit_eq_testBit _ hi, isBit_eq_testBit _ hi, h i hi]

theorem testBit_not (x : UInt32) {i : Nat} (hi : i < 32) :
    (~~~x).toNat.testBit i = !x.toNat.testBit i := by
  rw [← isBit_eq_testBit _ hi, ← isBit_eq_testBit _ hi, isBit_not _ hi]

theorem testBit_shiftLeft (x : UInt32) {amount : UInt32} (hamount : amount.toNat < 32) {i : Nat}
    (hi : i < 32) :
    (x <<< amount).toNat.testBit i =
      (decide (amount.toNat ≤ i) && x.toNat.testBit (i - amount.toNat)) := by
  rw [UInt32.toNat_shiftLeft, Nat.mod_eq_of_lt hamount, Nat.testBit_mod_two_pow,
    Nat.testBit_shiftLeft]
  simp [hi]

theorem testBit_shiftRight (x : UInt32) {amount : UInt32} (hamount : amount.toNat < 32) (i : Nat) :
    (x >>> amount).toNat.testBit i = x.toNat.testBit (amount.toNat + i) := by
  rw [UInt32.toNat_shiftRight, Nat.mod_eq_of_lt hamount, Nat.testBit_shiftRight]

theorem testBit_shiftRight_eight (x : UInt32) (i : Nat) :
    (x >>> 8).toNat.testBit i = x.toNat.testBit (8 + i) :=
  testBit_shiftRight x (by decide) i

theorem shiftRight_sixteen (x : UInt32) : x >>> 16 = x >>> 8 >>> 8 := by
  refine ext_testBit fun i _ => ?_
  rw [testBit_shiftRight _ (by decide), testBit_shiftRight_eight, testBit_shiftRight_eight,
    ← Nat.add_assoc]
  rfl

/-! ## Words of 16 bits -/

theorem ext_testBit16 {x y : UInt16} (h : ∀ i < 16, x.toNat.testBit i = y.toNat.testBit i) :
    x = y := by
  rw [← UInt16.toNat_inj]
  refine Nat.eq_of_testBit_eq fun i => ?_
  by_cases hi : i < 16
  · exact h i hi
  · have hpow : 2 ^ 16 ≤ 2 ^ i := Nat.pow_le_pow_right (by decide) (by omega)
    rw [Nat.testBit_lt_two_pow (x.toNat_lt.trans_le hpow),
      Nat.testBit_lt_two_pow (y.toNat_lt.trans_le hpow)]

theorem testBit_not16 (x : UInt16) {i : Nat} (hi : i < 16) :
    (~~~x).toNat.testBit i = !x.toNat.testBit i := by
  rw [UInt16.toNat_not]
  show (2 ^ 16 - 1 - x.toNat).testBit i = _
  rw [Nat.sub_sub, Nat.add_comm, Nat.testBit_two_pow_sub_succ x.toNat_lt]
  simp [hi]

theorem testBit_toUInt16 (x : UInt32) {i : Nat} (hi : i < 16) :
    x.toUInt16.toNat.testBit i = x.toNat.testBit i := by
  rw [UInt32.toNat_toUInt16, Nat.testBit_mod_two_pow]
  simp [hi]

theorem toNat_one_shiftLeft16 {i : Nat} (hi : i < 16) :
    ((1 : UInt16) <<< UInt16.ofNat i).toNat = 2 ^ i := by
  have hamount : (UInt16.ofNat i).toNat = i := by
    rw [UInt16.toNat_ofNat']
    exact Nat.mod_eq_of_lt (by omega)
  have hpow : 2 ^ i < 2 ^ 16 := Nat.pow_lt_pow_right (by decide) hi
  rw [UInt16.toNat_shiftLeft, hamount, Nat.mod_eq_of_lt hi, Nat.shiftLeft_eq]
  show 1 * 2 ^ i % 2 ^ 16 = 2 ^ i
  rw [Nat.one_mul, Nat.mod_eq_of_lt hpow]

theorem isBit16_eq_testBit (x : UInt16) {i : Nat} (hi : i < 16) :
    isBit x i = x.toNat.testBit i := by
  have hmask : (x &&& ((1 : UInt16) <<< UInt16.ofNat i)).toNat =
      (x.toNat.testBit i).toNat * 2 ^ i := by
    rw [UInt16.toNat_and, toNat_one_shiftLeft16 hi, Nat.and_two_pow]
  have hzero : x &&& ((1 : UInt16) <<< UInt16.ofNat i) = 0 ↔ x.toNat.testBit i = false := by
    rw [← UInt16.toNat_inj, hmask]
    simp
  show ((x &&& ((1 : UInt16) <<< UInt16.ofNat i)) != 0) = _
  rw [bne_eq, Bool.eq_iff_iff]
  simp [hzero]

theorem testBit_setBit16 (x : UInt16) (state : Bool) {i j : Nat} (hi : i < 16) (hj : j < 16) :
    (setBit x i state).toNat.testBit j = if j = i then state else x.toNat.testBit j := by
  have hone : ((1 : UInt16) <<< UInt16.ofNat i).toNat.testBit j = decide (i = j) := by
    rw [toNat_one_shiftLeft16 hi, Nat.testBit_two_pow]
  have hforced : (UInt16.ofNat state.toNat <<< UInt16.ofNat i).toNat.testBit j =
      (state && decide (i = j)) := by
    cases state with
    | false =>
      have hzero : UInt16.ofNat false.toNat <<< UInt16.ofNat i = 0 := UInt16.zero_shiftLeft
      rw [hzero]
      exact Nat.zero_testBit j
    | true => exact hone
  show ((x &&& ~~~((1 : UInt16) <<< UInt16.ofNat i)) |||
    (UInt16.ofNat state.toNat <<< UInt16.ofNat i)).toNat.testBit j = _
  rw [UInt16.toNat_or, Nat.testBit_or, UInt16.toNat_and, Nat.testBit_and, testBit_not16 _ hj, hone,
    hforced]
  by_cases h : j = i
  · simp [h]
  · simp [h, Ne.symm h]

/-- The two lowest bits. -/
theorem bits16_two (x : UInt16) : bits x 0 2 = x &&& 3 := by
  show (x >>> 0) &&& 3 = x &&& 3
  rw [UInt16.shiftRight_zero]

/-- Words have the same low bits if they are the same under a mask of these. -/
theorem and_low_eq_iff {x y mask : UInt16} {n : Nat} (hmask : mask.toNat = 2 ^ n - 1) :
    x &&& mask = y &&& mask ↔ ∀ i < n, x.toNat.testBit i = y.toNat.testBit i := by
  have hbit : ∀ (z : UInt16) (i : Nat), (z &&& mask).toNat.testBit i =
      (z.toNat.testBit i && decide (i < n)) := by
    intro z i
    rw [UInt16.toNat_and, Nat.testBit_and, hmask, Nat.testBit_two_pow_sub_one]
  constructor
  · intro h i hi
    have hsame : (x &&& mask).toNat.testBit i = (y &&& mask).toNat.testBit i := by rw [h]
    rwa [hbit, hbit, decide_eq_true hi, Bool.and_true, Bool.and_true] at hsame
  · intro h
    refine ext_testBit16 fun i _ => ?_
    rw [hbit, hbit]
    by_cases hi : i < n
    · rw [h i hi]
    · simp [hi]

end Word

/-! ## Rounding -/

namespace Address

/-- An address rounded down to a power of two, as a number. -/
theorem toNat_alignDown (address : UInt32) {size : UInt32} {k : Nat} (hsize : size.toNat = 2 ^ k) :
    (alignDown address size).toNat = address.toNat / 2 ^ k * 2 ^ k := by
  have hk : k < 32 := (Nat.pow_lt_pow_iff_right (by decide)).mp (hsize ▸ size.toNat_lt)
  have hone : (1 : UInt32) ≤ size := by
    rw [UInt32.le_iff_toNat_le, hsize]
    exact Nat.two_pow_pos k
  show (address &&& ~~~(size - 1)).toNat = _
  rw [UInt32.toNat_and, UInt32.toNat_not, UInt32.toNat_sub_of_le _ _ hone, hsize]
  show address.toNat &&& (2 ^ 32 - 1 - (2 ^ k - 1)) = _
  have hmask : 2 ^ k - 1 < 2 ^ 32 :=
    (Nat.sub_le _ _).trans_lt (Nat.pow_lt_pow_right (by decide) hk)
  refine Nat.eq_of_testBit_eq fun i => ?_
  rw [Nat.sub_sub, Nat.add_comm 1, Nat.testBit_and, Nat.testBit_two_pow_sub_succ hmask,
    Nat.testBit_two_pow_sub_one, Nat.testBit_mul_two_pow, Nat.testBit_div_two_pow]
  by_cases hi : i < 32
  · by_cases hki : k ≤ i
    · simp [hi, hki]
    · simp [hki]
      omega
  · -- Beyond the word both sides have no digits.
    have hbeyond : address.toNat.testBit i = false :=
      Nat.testBit_lt_two_pow
        (address.toNat_lt.trans_le (Nat.pow_le_pow_right (by decide) (by omega)))
    have hki : k ≤ i := by omega
    simp [hbeyond, hki]

theorem alignDown_of_dvd {address size : UInt32} {k : Nat} (hsize : size.toNat = 2 ^ k)
    (h : size.toNat ∣ address.toNat) : alignDown address size = address := by
  rw [← UInt32.toNat_inj, toNat_alignDown address hsize, ← hsize]
  exact Nat.div_mul_cancel h

/-- The address of the next byte, as a number. -/
theorem toNat_add_one {address : UInt32} (h : address.toNat + 1 < 2 ^ 32) :
    (address + 1).toNat = address.toNat + 1 := by
  rw [UInt32.toNat_add]
  exact Nat.mod_eq_of_lt h

/-- The address of the next half. -/
theorem toNat_add_two {address : UInt32} (h : address.toNat + 2 < 2 ^ 32) :
    (address + 2).toNat = address.toNat + 2 := by
  rw [UInt32.toNat_add]
  exact Nat.mod_eq_of_lt h

end Address
end Handheld
