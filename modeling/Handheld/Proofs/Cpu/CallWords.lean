import Handheld.Proofs.Arm.Chart
import Handheld.Proofs.Cpu.ExactProducts
import Handheld.Thumb.Decode

/-!
# Words of calls

Which words and halfwords are calls and returns, told by their fields, and the offsets that they
hold as integers. A long instruction has its offset in one field of signed words; two short ones
share one of signed halfwords, of which the second has the lower part.
-/

namespace Handheld

open Word

theorem Word.toUInt32_eq_ofInt (offset : Int32) : offset.toUInt32 = UInt32.ofInt offset.toInt :=
  (ofInt_toInt32 offset.toUInt32).symm

/-! ## Long instructions -/

namespace Arm

theorem field_zero (w : UInt32) (high : ℕ) : field w high 0 = w.toNat % 2 ^ (high + 1) := by
  rw [field, Nat.pow_zero, Nat.div_one, Nat.sub_zero]

/-- The offset of a branch or call in words. -/
def wordOffset (w : UInt32) : ℤ := (field w 23 0 : ℤ).bmod (2 ^ 24)

/-- A word that is shifted to the top and back leaves its low part, read as a signed number. -/
theorem toInt_signExtend24 (w : UInt32) : (signExtend24 w).toInt = wordOffset w := by
  have hshift : (w <<< 8).toNat = w.toNat * 2 ^ 8 % 2 ^ 32 := by
    rw [UInt32.toNat_shiftLeft, Nat.shiftLeft_eq]
    rfl
  have hback : (signExtend24 w).toInt = (w <<< 8).toInt32.toInt / 2 ^ 8 := by
    refine (BitVec.toInt_sshiftRight (n := 8)).trans ?_
    exact Int.shiftRight_eq_div_pow _ 8
  have hcases := toInt32_cases (w <<< 8)
  have hfield : field w 23 0 = w.toNat % 2 ^ 24 := field_zero w 23
  have hoffset := Int.bmod_def (field w 23 0) (2 ^ 24)
  unfold wordOffset
  split_ifs at hoffset <;> omega

theorem toUInt32_branchOffset (w : UInt32) :
    (branchOffset w).toUInt32 = UInt32.ofInt (4 * wordOffset w) := by
  rw [branchOffset, Int32.toUInt32_mul, toUInt32_eq_ofInt, toInt_signExtend24, Int.mul_comm,
    UInt32.ofInt_mul]
  rfl

theorem isBit_eq_decide_field (w : UInt32) {i : ℕ} (hi : i < 32) :
    isBit w i = decide (field w i i = 1) := by
  rw [← toNat_isBit w hi]
  cases isBit w i <;> rfl

theorem condition_ne_of_holds {s : CpuState} {w : UInt32}
    (h : s.holds (condition w) = true) : field w 31 28 ≠ 15 := by
  intro hfield
  have hcondition : condition w = 15 := Fin.ext ((val_condition w).trans hfield)
  have hnever : isBit (0 : UInt16) (s.cpsr >>> 28).toNat = false := by
    rw [isBit, UInt16.zero_and]
    rfl
  rw [hcondition] at h
  exact Bool.false_ne_true (hnever.symm.trans h)

/-- The two classes of words that go to the address in a register have one index each. -/
theorem index_of_exchange {w : UInt32} {k : ℕ} (hclass : field w 27 20 = 0x12)
    (hkind : field w 7 4 = k) : index w = UInt32.ofNat (0x120 + k) := by
  have hk : k < 2 ^ 4 := by
    rw [← hkind]
    exact Nat.mod_lt _ (by decide)
  have hupper : w.toNat / 2 ^ 20 % 2 ^ 8 = 0x12 := hclass
  have hlower : w.toNat / 2 ^ 4 % 2 ^ 4 = k := hkind
  rw [← UInt32.toNat_inj, toNat_index, hupper, hlower, UInt32.toNat_ofNat']
  omega

section
variable {w : UInt32} (hcond : field w 31 28 ≠ 15) (isV5 : Bool)
include hcond

theorem decode_link (hclass : field w 27 24 = 0b1011) :
    decode isV5 w = .branch (branchOffset w) true := by
  have hbranch : field w 27 25 = 0b101 ∧ field w 24 24 = 1 := by
    unfold field at *
    omega
  have hfits : index w &&& 0xE00 = 0xA00 :=
    (index_fits_upper (by decide) (by decide) (by decide) rfl rfl).mpr hbranch.1
  have hofIndex : Encoding.ofIndex (index w) = .branch :=
    List.mem_singleton.mp (firstFit_mem_candidates hfits chart)
  rw [decode_eq_decodeAs hcond, hofIndex, decodeAs, isBit_eq_decide_field w (by decide),
    hbranch.2]
  rfl

theorem decode_exchange (hclass : field w 27 20 = 0x12) (hkind : field w 7 4 = 1) :
    decode isV5 w = .exchange (reg w 0) := by
  rw [decode_eq_decodeAs hcond, index_of_exchange hclass hkind]
  rfl

theorem decode_callExchange (hclass : field w 27 20 = 0x12) (hkind : field w 7 4 = 3) :
    decode true w = .callExchange (reg w 0) := by
  rw [decode_eq_decodeAs hcond, index_of_exchange hclass hkind]
  rfl

end

theorem decode_callShort {w : UInt32} (hclass : field w 31 25 = 0b1111101) :
    condition w = 15 ∧
      decode true w = .callShort (branchOffset w + if isBit w 24 then 2 else 0) := by
  have hfields : field w 31 28 = 15 ∧ field w 27 25 = 0b101 := by
    unfold field at *
    omega
  have hcondition : condition w = 15 := Fin.ext ((val_condition w).trans hfields.1)
  have hbits : bits w 25 3 = 0b101 := by
    rw [← UInt32.toNat_inj, toNat_bits w (by decide) (by decide)]
    exact hfields.2
  refine ⟨hcondition, ?_⟩
  rw [decode, hcondition, decodeUnconditional, if_pos hbits]
  rfl

/-- Bit 24 of a call into the short set adds a halfword. -/
theorem toUInt32_shortOffset (w : UInt32) :
    (branchOffset w + if isBit w 24 then 2 else 0).toUInt32 =
      UInt32.ofInt (4 * wordOffset w + 2 * field w 24 24) := by
  rw [Int32.toUInt32_add, toUInt32_branchOffset, UInt32.ofInt_add, ← toNat_isBit w (by decide)]
  cases isBit w 24 <;> rfl

end Arm

/-! ## Short instructions -/

namespace Thumb

open Arm (field)

/-- The offset of a call in halfwords, from the fields of its two halves. -/
def halfOffset (first second : UInt32) : ℤ :=
  ((field first 10 0 * 2 ^ 11 + field second 10 0 : ℕ) : ℤ).bmod (2 ^ 22)

/-- Patterns that want different values of a common bit do not fit the same halfword. -/
theorem misfit_of_fits {half mask value mask' value' : UInt16} (h : half &&& mask = value)
    (hdiffer : value &&& mask' ≠ value' &&& mask) : (half &&& mask' == value') = false := by
  refine beq_eq_false_iff_ne.mpr fun h' => hdiffer ?_
  rw [← h, ← h', UInt16.and_assoc, UInt16.and_assoc, UInt16.and_comm mask]

/-- A pattern of neighbouring bits is about the number in them. -/
theorem fits_iff {w : UInt32} {mask value : UInt16} {high low v : ℕ}
    (hmask : mask.toNat = (2 ^ (high + 1 - low) - 1) * 2 ^ low)
    (hvalue : value.toNat = v * 2 ^ low) :
    w.toUInt16 &&& mask = value ↔ field w high low = v := by
  have hand : (w &&& mask.toUInt32).toNat = (w.toUInt16 &&& mask).toNat := by
    refine Nat.eq_of_testBit_eq fun k => ?_
    rw [UInt32.toNat_and, UInt16.toNat_and, UInt16.toNat_toUInt32, UInt32.toNat_toUInt16,
      Nat.testBit_and, Nat.testBit_and, Nat.testBit_mod_two_pow]
    by_cases hk : k < 16
    · simp [hk]
    · have hbeyond : mask.toNat.testBit k = false :=
        Nat.testBit_lt_two_pow
          (mask.toNat_lt.trans_le (Nat.pow_le_pow_right (by decide) (by omega)))
      simp [hbeyond]
  have hwide : w.toUInt16 &&& mask = value ↔ w &&& mask.toUInt32 = value.toUInt32 := by
    rw [← UInt16.toNat_inj, ← UInt32.toNat_inj, hand, UInt16.toNat_toUInt32]
  rw [hwide, Arm.fits_iff (by rwa [UInt16.toNat_toUInt32]) (by rwa [UInt16.toNat_toUInt32]), field]

/-! ### The halves of a call -/

theorem decode_prepareCall {w : UInt32} (hclass : field w 15 11 = 0b11110) (isV5 : Bool) :
    decode isV5 w.toUInt16 = .prepareCall (signExtend11 w.toUInt16 <<< 12) := by
  have hfits : w.toUInt16 &&& 0xF800 = 0xF000 := (fits_iff rfl rfl).mpr hclass
  simp (disch := decide) [decode, misfit_of_fits hfits, hfits]

theorem decode_call {w : UInt32} (hclass : field w 15 11 = 0b11111) (isV5 : Bool) :
    decode isV5 w.toUInt16 = .call (imm11 w.toUInt16) true := by
  have hfits : w.toUInt16 &&& 0xF800 = 0xF800 := (fits_iff rfl rfl).mpr hclass
  simp (disch := decide) [decode, misfit_of_fits hfits, hfits]

theorem decode_callLong {w : UInt32} (hclass : field w 15 11 = 0b11101) :
    decode true w.toUInt16 = .call (imm11 w.toUInt16) false := by
  have hfits : w.toUInt16 &&& 0xF800 = 0xE800 := (fits_iff rfl rfl).mpr hclass
  simp (disch := decide) [decode, misfit_of_fits hfits, hfits]

theorem toInt_signExtend11 (w : UInt32) :
    (signExtend11 w.toUInt16).toInt = (field w 10 0 : ℤ).bmod (2 ^ 11) := by
  let top := (w.toUInt16 &&& 0x7FF) <<< 5
  have hlow : (w.toUInt16 &&& 0x7FF).toNat = w.toUInt16.toNat % 2 ^ 11 := by
    rw [UInt16.toNat_and]
    exact Nat.and_two_pow_sub_one_eq_mod w.toUInt16.toNat 11
  have htop : top.toNat = w.toNat * 2 ^ 5 % 2 ^ 16 := by
    rw [UInt16.toNat_shiftLeft, hlow, Nat.shiftLeft_eq, UInt32.toNat_toUInt16]
    show w.toNat % 2 ^ 16 % 2 ^ 11 * 2 ^ 5 % 2 ^ 16 = _
    omega
  have hback : (signExtend11 w.toUInt16).toInt = top.toInt16.toInt / 2 ^ 5 := by
    refine (Int16.toInt_toInt32 _).trans ?_
    refine (BitVec.toInt_sshiftRight (n := 5)).trans ?_
    exact Int.shiftRight_eq_div_pow _ 5
  have htopSigned : top.toInt16.toInt = (top.toNat : ℤ).bmod (2 ^ 16) :=
    BitVec.toInt_eq_toNat_bmod _
  have hfield : field w 10 0 = w.toNat % 2 ^ 11 := Arm.field_zero w 10
  have hsigned := Int.bmod_def (field w 10 0) (2 ^ 11)
  rw [hback, htopSigned, Int.bmod_def]
  split_ifs at hsigned ⊢ <;> omega

/-- The first half counts the upper part of the offset in steps of 4 KiB. -/
theorem toUInt32_upperOffset (w : UInt32) :
    (signExtend11 w.toUInt16 <<< 12).toUInt32 =
      UInt32.ofInt (2 ^ 12 * (field w 10 0 : ℤ).bmod (2 ^ 11)) := by
  have hshift : (signExtend11 w.toUInt16 <<< 12).toUInt32 =
      (signExtend11 w.toUInt16).toUInt32 * 2 ^ 12 := by
    show (signExtend11 w.toUInt16).toUInt32 <<< 12 = _
    rw [← UInt32.toNat_inj, UInt32.toNat_shiftLeft, Nat.shiftLeft_eq, UInt32.toNat_mul]
    rfl
  rw [hshift, toUInt32_eq_ofInt, toInt_signExtend11, Int.mul_comm, UInt32.ofInt_mul]
  rfl

theorem imm11_eq (w : UInt32) : imm11 w.toUInt16 = UInt32.ofInt (2 * field w 10 0) := by
  have hlow : (bits w.toUInt16 0 11).toNat = w.toUInt16.toNat % 2 ^ 11 := by
    show ((w.toUInt16 >>> 0) &&& 0x7FF).toNat = _
    rw [UInt16.shiftRight_zero, UInt16.toNat_and]
    exact Nat.and_two_pow_sub_one_eq_mod _ 11
  refine eq_ofInt ?_
  rw [imm11, UInt32.toNat_shiftLeft, UInt16.toNat_toUInt32, hlow, Nat.shiftLeft_eq,
    UInt32.toNat_toUInt16, Arm.field_zero]
  show ((_ * 2 ^ 1 % 2 ^ 32 : ℕ) : ℤ) = _
  omega

/-- The parts of the two halves make up one signed offset. -/
theorem ofInt_halves (first second : UInt32) :
    UInt32.ofInt (2 ^ 12 * (field first 10 0 : ℤ).bmod (2 ^ 11)) +
      UInt32.ofInt (2 * field second 10 0) = UInt32.ofInt (2 * halfOffset first second) := by
  have hupper : field first 10 0 < 2 ^ 11 := Nat.mod_lt _ (by decide)
  have hlower : field second 10 0 < 2 ^ 11 := Nat.mod_lt _ (by decide)
  have hsum : 2 ^ 12 * (field first 10 0 : ℤ).bmod (2 ^ 11) + 2 * field second 10 0 =
      2 * halfOffset first second := by
    have hpart := Int.bmod_def (field first 10 0) (2 ^ 11)
    have hwhole := Int.bmod_def (field first 10 0 * 2 ^ 11 + field second 10 0 : ℕ) (2 ^ 22)
    unfold halfOffset
    split_ifs at hpart hwhole <;> omega
  rw [← UInt32.ofInt_add, hsum]

/-! ### Registers -/

theorem val_highRegs (w : UInt32) : (highRegs w.toUInt16).1.val = field w 6 3 := by
  have hfield : (bits w.toUInt16 3 4).toNat = w.toUInt16.toNat / 2 ^ 3 % 2 ^ 4 := by
    show ((w.toUInt16 >>> 3) &&& 0xF).toNat = _
    rw [UInt16.toNat_and, UInt16.toNat_shiftRight, Nat.shiftRight_eq_div_pow]
    exact Nat.and_two_pow_sub_one_eq_mod _ 4
  show (bits w.toUInt16 3 4).toNat % 16 = _
  rw [hfield, UInt32.toNat_toUInt16, field]
  omega

/-- The class of halfwords that go to the address in a register. Whether they call it, bit 7
says. -/
theorem decode_toRegister {w : UInt32} (hclass : field w 15 8 = 0b01000111) (isV5 : Bool) :
    decode isV5 w.toUInt16 =
      if isBit w.toUInt16 7 && !isV5 then .unknown
      else .exchange (highRegs w.toUInt16).1 (isBit w.toUInt16 7) := by
  have hfits : w.toUInt16 &&& 0xFF00 = 0x4700 := (fits_iff rfl rfl).mpr hclass
  simp (disch := decide) [decode, misfit_of_fits hfits, hfits]

theorem isBit_seven (w : UInt32) : isBit w.toUInt16 7 = decide (field w 7 7 = 1) := by
  rw [isBit16_eq_testBit _ (by decide), UInt32.toNat_toUInt16, Nat.testBit_eq_decide_div_mod_eq,
    field, decide_eq_decide]
  omega

theorem decode_exchange {w : UInt32} (hclass : field w 15 7 = 0b010001110) (isV5 : Bool) :
    decode isV5 w.toUInt16 = .exchange (highRegs w.toUInt16).1 false := by
  have hparts : field w 15 8 = 0b01000111 ∧ field w 7 7 = 0 := by
    unfold field at *
    omega
  rw [decode_toRegister hparts.1, isBit_seven, hparts.2]
  rfl

theorem decode_callExchange {w : UInt32} (hclass : field w 15 7 = 0b010001111) :
    decode true w.toUInt16 = .exchange (highRegs w.toUInt16).1 true := by
  have hparts : field w 15 8 = 0b01000111 ∧ field w 7 7 = 1 := by
    unfold field at *
    omega
  rw [decode_toRegister hparts.1, isBit_seven, hparts.2]
  rfl

end Thumb
end Handheld
