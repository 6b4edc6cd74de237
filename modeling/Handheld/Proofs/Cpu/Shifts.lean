import Mathlib
import Handheld.Cpu.Shifter
import Handheld.Proofs.Word

/-!
# Shifts as operations on bits

What the barrel shifter puts out for the amounts that an instruction gives, told by the operations
of the standard library on vectors of bits.
-/

namespace Handheld

open Word

section

variable {value amount : UInt32}

theorem toNat_mod_thirtyTwo (h : amount.toNat < 32) :
    (amount.toBitVec % 32).toNat = amount.toNat := by
  rw [BitVec.toNat_umod]
  exact Nat.mod_eq_of_lt h

theorem toBitVec_shiftLeft_of_lt (h : amount.toNat < 32) :
    (value <<< amount).toBitVec = value.toBitVec <<< amount.toNat := by
  rw [UInt32.toBitVec_shiftLeft, BitVec.shiftLeft_eq', toNat_mod_thirtyTwo h]

theorem toBitVec_shiftRight_of_lt (h : amount.toNat < 32) :
    (value >>> amount).toBitVec = value.toBitVec >>> amount.toNat := by
  rw [UInt32.toBitVec_shiftRight, BitVec.ushiftRight_eq', toNat_mod_thirtyTwo h]

theorem toBitVec_signedShiftRight (h : amount.toNat < 32) :
    (value.toInt32 >>> amount.toInt32).toUInt32.toBitVec =
      value.toBitVec.sshiftRight amount.toNat := by
  have hmsb : amount.toBitVec.msb = false := by
    rw [BitVec.msb_eq_false_iff_two_mul_lt]
    show 2 * amount.toNat < 2 ^ 32
    omega
  have hmod : amount.toBitVec.smod 32 = amount.toBitVec % 32 := by
    rw [BitVec.smod_eq, hmsb]
    rfl
  rw [Int32.toBitVec_toUInt32, Int32.toBitVec_shiftRight]
  show value.toBitVec.sshiftRight (amount.toBitVec.smod 32).toNat = _
  rw [hmod, toNat_mod_thirtyTwo h]

theorem toBitVec_rotateRight (h : amount.toNat < 32) :
    (rotateRight value amount).toBitVec = value.toBitVec.rotateRight amount.toNat := by
  by_cases hzero : amount = 0
  · subst hzero
    rw [rotateRight_zero, ← BitVec.toNat_inj, BitVec.toNat_rotateRight]
    show value.toNat = value.toNat >>> 0 ||| value.toNat <<< 32 % 2 ^ 32
    rw [Nat.shiftLeft_eq, Nat.mul_mod_left, Nat.or_zero, Nat.shiftRight_zero]
  · have hpos : amount.toNat ≠ 0 := fun h => hzero (UInt32.toNat_inj.mp h)
    have hle : amount ≤ 32 := UInt32.le_iff_toNat_le.mpr (le_of_lt h)
    have hsub : (32 - amount).toNat = 32 - amount.toNat := UInt32.toNat_sub_of_le _ _ hle
    rw [BitVec.rotateRight_def, Nat.mod_eq_of_lt h, rotateRight, UInt32.toBitVec_or,
      toBitVec_shiftRight_of_lt h, toBitVec_shiftLeft_of_lt (by omega), hsub]

/-- The rotation of a word is that of its bits. -/
theorem rotateRight_eq (h : amount.toNat < 32) :
    rotateRight value amount = ⟨value.toBitVec.rotateRight amount.toNat⟩ :=
  UInt32.toBitVec_inj.mp (toBitVec_rotateRight h)

/-- A word shifted by all of its width or more to the right holds copies of its sign. -/
theorem sshiftRight_of_le (value : BitVec 32) {n : ℕ} (h : 31 ≤ n) :
    value.sshiftRight n = value.sshiftRight 31 := by
  ext i hi
  rw [BitVec.getElem_sshiftRight, BitVec.getElem_sshiftRight]
  by_cases hfirst : n + i = 31
  · obtain ⟨rfl, rfl⟩ : i = 0 ∧ n = 31 := by omega
    rfl
  · rw [dif_neg (by omega)]
    split
    · obtain rfl : i = 0 := by omega
      rfl
    · rfl

/-- Through the carry a word is moved down by one bit, and the carry gets in at the top. -/
theorem value_rrx (value : UInt32) (carry : Bool) :
    (Shifter.rrx value carry).value = UInt32.ofNat (2 ^ 31 * carry.toNat + value.toNat / 2) := by
  have hvalue := value.toNat_lt
  have hhalf : value.toNat / 2 < 2 ^ 31 := by omega
  have hcarry : carry.toNat < 2 := carry.toNat_lt
  have hsum : (UInt32.ofNat (2 ^ 31 * carry.toNat + value.toNat / 2)).toNat =
      2 ^ 31 * carry.toNat + value.toNat / 2 := by
    rw [UInt32.toNat_ofNat']
    exact Nat.mod_eq_of_lt (by omega)
  have hone : (1 : UInt32).toNat % 32 = 1 := rfl
  refine ext_isBit fun i hi => ?_
  show isBit (setBit (value >>> 1) 31 carry) i = _
  rw [isBit_setBit _ _ (by omega) hi, isBit_eq_testBit _ hi, isBit_eq_testBit _ hi, hsum,
    Nat.testBit_two_pow_mul_add _ hhalf, UInt32.toNat_shiftRight, hone]
  by_cases htop : i = 31
  · subst htop
    cases carry <;> simp
  · rw [if_neg (by omega), if_pos (by omega), Nat.shiftRight_eq_div_pow]

end

/-- A word shifted by an amount below 32 that an instruction gives. An amount of 0 stands for 32 in
the shifts to the right, and for a rotation by one through the carry. -/
def shiftedBy (kind : ShiftKind) (amount : Nat) (carry : Bool) (value : UInt32) : UInt32 :=
  match kind with
  | .lsl => ⟨value.toBitVec <<< amount⟩
  | .lsr => ⟨value.toBitVec >>> (if amount = 0 then 32 else amount)⟩
  | .asr => ⟨value.toBitVec.sshiftRight (if amount = 0 then 32 else amount)⟩
  | .ror =>
    if amount = 0 then UInt32.ofNat (2 ^ 31 * carry.toNat + value.toNat / 2)
    else ⟨value.toBitVec.rotateRight amount⟩

theorem value_byImmediate (kind : ShiftKind) (value : UInt32) {amount : UInt32} (carry : Bool)
    (h : amount.toNat < 32) :
    (Shifter.byImmediate kind value amount carry).value =
      shiftedBy kind amount.toNat carry value := by
  have hlt : amount < 32 := UInt32.lt_iff_toNat_lt.mpr h
  rw [← UInt32.toBitVec_inj]
  by_cases hzero : amount = 0
  · subst hzero
    cases kind with
    | lsl => simp [Shifter.byImmediate, Shifter.lsl, shiftedBy]
    | lsr =>
      show (0 : BitVec 32) = value.toBitVec >>> 32
      exact (BitVec.ushiftRight_eq_zero le_rfl).symm
    | asr =>
      show (value.toInt32 >>> (31 : UInt32).toInt32).toUInt32.toBitVec =
        value.toBitVec.sshiftRight 32
      rw [toBitVec_signedShiftRight (by decide)]
      exact (sshiftRight_of_le value.toBitVec (by decide)).symm
    | ror => exact congrArg UInt32.toBitVec (value_rrx value carry)
  · have hpos : amount.toNat ≠ 0 := fun h => hzero (UInt32.toNat_inj.mp h)
    cases kind with
    | lsl =>
      simp only [Shifter.byImmediate, Shifter.lsl, shiftedBy, if_neg hzero, if_pos hlt]
      exact toBitVec_shiftLeft_of_lt h
    | lsr =>
      simp only [Shifter.byImmediate, Shifter.lsr, shiftedBy, if_neg hzero, if_pos hlt, if_neg hpos]
      exact toBitVec_shiftRight_of_lt h
    | asr =>
      simp only [Shifter.byImmediate, Shifter.asr, shiftedBy, if_neg hzero, if_pos hlt, if_neg hpos]
      exact toBitVec_signedShiftRight h
    | ror =>
      have hlow : amount &&& 31 = amount := by
        rw [← UInt32.toNat_inj, UInt32.toNat_and]
        exact (Nat.and_two_pow_sub_one_eq_mod _ 5).trans (Nat.mod_eq_of_lt h)
      simp only [Shifter.byImmediate, Shifter.ror, shiftedBy, if_neg hzero, if_neg hpos, hlow]
      exact toBitVec_rotateRight h

end Handheld
