import Handheld.Proofs.Cpu.Shifts

/-!
# Shifts one place at a time

The barrel shifter tells apart amounts of 0, of less than 32, of 32 and of more, and has a formula
for the carry in each case. Here all of them are the repetition of one step, which moves every bit
by one place and keeps in the carry the bit that leaves. Main statement: `Shifter.eq_iterate`.
-/

namespace Handheld

open Word

namespace ShiftKind

/-! ## Steps -/

/-- A shift by one place. The carry becomes the bit that leaves. -/
def step (kind : ShiftKind) (x : Shifted) : Shifted :=
  let bits := x.value.toBitVec
  match kind with
  | lsl => ⟨⟨bits <<< 1⟩, bits.msb⟩
  | lsr => ⟨⟨bits >>> 1⟩, bits.getLsbD 0⟩
  | asr => ⟨⟨bits.sshiftRight 1⟩, bits.getLsbD 0⟩
  | ror => ⟨⟨bits.rotateRight 1⟩, bits.getLsbD 0⟩

/-- A rotation to the right by one place of the 33 bits that the carry and the word make up
together. -/
def throughCarry (x : Shifted) : Shifted :=
  let ring := (BitVec.cons x.carry x.value.toBitVec).rotateRight 1
  ⟨⟨ring.setWidth 32⟩, ring.msb⟩

/-- The bits after some steps. -/
def moved (kind : ShiftKind) (bits : BitVec 32) (n : ℕ) : BitVec 32 :=
  match kind with
  | lsl => bits <<< n
  | lsr => bits >>> n
  | asr => bits.sshiftRight n
  | ror => bits.rotateRight n

/-- The bit that leaves in the next step. -/
def leaving (kind : ShiftKind) (bits : BitVec 32) : Bool :=
  match kind with
  | lsl => bits.msb
  | lsr | asr | ror => bits.getLsbD 0

variable (kind : ShiftKind) (bits : BitVec 32) (n : ℕ)

theorem step_eq (x : Shifted) :
    kind.step x = ⟨⟨kind.moved x.value.toBitVec 1⟩, kind.leaving x.value.toBitVec⟩ := by
  cases kind <;> rfl

/-- Rotations add up. -/
theorem rotateRight_succ : bits.rotateRight (n + 1) = (bits.rotateRight n).rotateRight 1 := by
  ext i hi
  simp only [BitVec.getElem_rotateRight]
  split_ifs <;> congr 1 <;> omega

theorem moved_succ : kind.moved bits (n + 1) = kind.moved (kind.moved bits n) 1 := by
  cases kind with
  | lsl => exact BitVec.shiftLeft_add bits n 1
  | lsr => exact BitVec.shiftRight_add bits n 1
  | asr => exact BitVec.sshiftRight_add
  | ror => exact rotateRight_succ bits n

theorem moved_zero : kind.moved bits 0 = bits := by
  cases kind with
  | lsl => exact BitVec.shiftLeft_zero bits
  | lsr => exact BitVec.ushiftRight_zero bits
  | asr => exact BitVec.sshiftRight_zero
  | ror =>
    ext i hi
    simp [moved, BitVec.getElem_rotateRight, hi]

/-- The carry after some steps is the bit that left in the last of them. -/
theorem iterate_step_succ (x : Shifted) :
    kind.step^[n + 1] x =
      ⟨⟨kind.moved x.value.toBitVec (n + 1)⟩, kind.leaving (kind.moved x.value.toBitVec n)⟩ := by
  induction n with
  | zero =>
    rw [moved_zero]
    exact kind.step_eq x
  | succ n ih => rw [Function.iterate_succ_apply', ih, step_eq, moved_succ _ _ (n + 1)]

end ShiftKind

/-! ## The shifter -/

namespace Shifter

section
variable (value : UInt32) {amount : UInt32} (carry : Bool) {n : ℕ} (hn : amount.toNat = n + 1)
include hn

theorem amount_cases :
    amount ≠ 0 ∧ (amount < 32 ↔ n + 1 < 32) ∧ (amount = 32 ↔ n + 1 = 32) := by
  refine ⟨?_, ?_, ?_⟩
  · rintro rfl
    simp at hn
  · rw [UInt32.lt_iff_toNat_lt, hn]
    rfl
  · rw [← UInt32.toNat_inj, hn]
    rfl

theorem lsl_eq : lsl value amount carry =
    ⟨⟨value.toBitVec <<< (n + 1)⟩, (value.toBitVec <<< n).msb⟩ := by
  obtain ⟨hzero, hlt, heq⟩ := amount_cases hn
  have hleaves : (value.toBitVec <<< n).msb = (decide (n < 32) && value.toNat.testBit (31 - n)) :=
    BitVec.msb_shiftLeft
  rw [hleaves, lsl, if_neg hzero]
  by_cases hsmall : n + 1 < 32
  · have hin : n < 32 := by omega
    have hbit : 32 - amount.toNat = 31 - n := by omega
    rw [if_pos (hlt.mpr hsmall), hbit, isBit_eq_testBit _ (by omega), decide_eq_true hin,
      Bool.true_and, ← hn, ← toBitVec_shiftLeft_of_lt (by omega)]
  · have hgone : (⟨value.toBitVec <<< (n + 1)⟩ : UInt32) = 0 :=
      UInt32.toBitVec_inj.mp (BitVec.shiftLeft_eq_zero (by omega))
    rw [if_neg (mt hlt.mp hsmall), hgone]
    by_cases hlast : n + 1 = 32
    · obtain rfl : n = 31 := by omega
      rw [if_pos (heq.mpr hlast), isBit_eq_testBit _ (by decide)]
      rfl
    · have hout : ¬ n < 32 := by omega
      rw [if_neg (mt heq.mp hlast), decide_eq_false hout, Bool.false_and]

theorem lsr_eq : lsr value amount carry =
    ⟨⟨value.toBitVec >>> (n + 1)⟩, (value.toBitVec >>> n).getLsbD 0⟩ := by
  obtain ⟨hzero, hlt, heq⟩ := amount_cases hn
  have hleaves : (value.toBitVec >>> n).getLsbD 0 = value.toBitVec.getLsbD n :=
    BitVec.getLsbD_ushiftRight _ _ _
  rw [hleaves, lsr, if_neg hzero]
  by_cases hsmall : n + 1 < 32
  · have hbit : amount.toNat - 1 = n := by omega
    rw [if_pos (hlt.mpr hsmall), hbit, isBit_eq_testBit _ (by omega), ← hn,
      ← toBitVec_shiftRight_of_lt (by omega)]
    rfl
  · have hgone : (⟨value.toBitVec >>> (n + 1)⟩ : UInt32) = 0 :=
      UInt32.toBitVec_inj.mp (BitVec.ushiftRight_eq_zero (by omega))
    rw [if_neg (mt hlt.mp hsmall), hgone]
    by_cases hlast : n + 1 = 32
    · obtain rfl : n = 31 := by omega
      rw [if_pos (heq.mpr hlast), isBit_eq_testBit _ (by decide)]
      rfl
    · rw [if_neg (mt heq.mp hlast), BitVec.getLsbD_of_ge _ _ (by omega)]

theorem asr_eq : asr value amount carry =
    ⟨⟨value.toBitVec.sshiftRight (n + 1)⟩, (value.toBitVec.sshiftRight n).getLsbD 0⟩ := by
  obtain ⟨hzero, hlt, -⟩ := amount_cases hn
  have hleaves : (value.toBitVec.sshiftRight n).getLsbD 0 =
      if n < 32 then value.toBitVec.getLsbD n else value.toBitVec.msb := by
    rw [BitVec.getLsbD_sshiftRight]
    simp
  rw [hleaves, asr, if_neg hzero]
  by_cases hsmall : n + 1 < 32
  · have hbit : amount.toNat - 1 = n := by omega
    have hin : n < 32 := by omega
    rw [if_pos (hlt.mpr hsmall), if_pos hin, hbit, isBit_eq_testBit _ hin, ← hn,
      ← toBitVec_signedShiftRight (by omega)]
    rfl
  · -- Only copies of the sign are left, whatever the amount.
    have hsign : value.toBitVec.msb = isBit value 31 := by
      rw [isBit_eq_testBit _ (by decide), BitVec.msb_eq_getLsbD_last]
      rfl
    have hbit : (if n < 32 then value.toBitVec.getLsbD n else value.toBitVec.msb) =
        isBit value 31 := by
      split
      · obtain rfl : n = 31 := by omega
        rw [isBit_eq_testBit _ (by decide)]
        rfl
      · exact hsign
    have hvalue : (value.toInt32 >>> 31).toUInt32 = ⟨value.toBitVec.sshiftRight 31⟩ := by
      have hlast : (31 : UInt32).toNat < 32 := by decide
      exact UInt32.toBitVec_inj.mp (toBitVec_signedShiftRight hlast)
    rw [if_neg (mt hlt.mp hsmall), hbit, hvalue, sshiftRight_of_le _ (by omega : 31 ≤ n + 1)]

theorem ror_eq : ror value amount carry =
    ⟨⟨value.toBitVec.rotateRight (n + 1)⟩, (value.toBitVec.rotateRight n).getLsbD 0⟩ := by
  obtain ⟨hzero, -, -⟩ := amount_cases hn
  have hlow : (amount &&& 31).toNat = (n + 1) % 32 := by
    rw [UInt32.toNat_and, hn]
    exact Nat.and_two_pow_sub_one_eq_mod _ 5
  have hleaves : (value.toBitVec.rotateRight n).getLsbD 0 = isBit value (n % 32) := by
    have hpos : 0 < 32 - n % 32 := by omega
    rw [BitVec.getLsbD_rotateRight, decide_eq_true hpos, isBit_eq_testBit _ (by omega)]
    rfl
  have hround : value.toBitVec.rotateRight (n + 1) =
      value.toBitVec.rotateRight (amount &&& 31).toNat := by
    rw [hlow, BitVec.rotateRight_mod_eq_rotateRight]
  rw [hleaves, hround, ror, if_neg hzero, ← rotateRight_eq (by omega)]
  by_cases hfull : amount &&& 31 = 0
  · have hlast : n % 32 = 31 := by
      rw [hfull] at hlow
      have : (n + 1) % 32 = 0 := hlow.symm
      omega
    rw [if_pos hfull, hfull, rotateRight_zero, hlast]
  · have hbit : (amount &&& 31).toNat - 1 = n % 32 := by
      have : (amount &&& 31).toNat ≠ 0 := fun h => hfull (UInt32.toNat_inj.mp h)
      omega
    rw [if_neg hfull, hbit]

end

section
variable (kind : ShiftKind) (value amount : UInt32) (carry : Bool)

/-- A shift by any number of places. An amount of 0 leaves the word and the carry alone. -/
theorem byAmount_eq_iterate :
    (match kind with
      | .lsl => lsl value amount carry
      | .lsr => lsr value amount carry
      | .asr => asr value amount carry
      | .ror => ror value amount carry) = kind.step^[amount.toNat] ⟨value, carry⟩ := by
  rcases hn : amount.toNat with _ | n
  · obtain rfl : amount = 0 := UInt32.toNat_inj.mp hn
    cases kind <;> rfl
  · rw [ShiftKind.iterate_step_succ]
    cases kind with
    | lsl => exact lsl_eq value carry hn
    | lsr => exact lsr_eq value carry hn
    | asr => exact asr_eq value carry hn
    | ror => exact ror_eq value carry hn

theorem rrx_eq : rrx value carry = ShiftKind.throughCarry ⟨value, carry⟩ := by
  let ring := (BitVec.cons carry value.toBitVec).rotateRight 1
  have hring : ∀ i < 32,
      ring.getLsbD i = if i = 31 then carry else value.toBitVec.getLsbD (1 + i) := by
    intro i hi
    have hbelow : i < 33 - 1 % 33 := by omega
    rw [BitVec.getLsbD_rotateRight, decide_eq_true hbelow, cond_true, BitVec.getLsbD_cons]
    refine if_congr ?_ rfl rfl
    omega
  have hvalue : setBit (value >>> 1) 31 carry = ⟨ring.setWidth 32⟩ := by
    refine ext_testBit fun i hi => ?_
    have hright : (ring.setWidth 32).getLsbD i = ring.getLsbD i := by
      rw [BitVec.getLsbD_setWidth, decide_eq_true hi, Bool.true_and]
    rw [← isBit_eq_testBit _ hi, isBit_setBit _ _ (by decide) hi, isBit_eq_testBit _ hi,
      testBit_shiftRight _ (by decide)]
    exact (hring i hi).symm.trans hright.symm
  have hcarry : isBit value 0 = ring.msb := by
    have hlowest : (BitVec.cons carry value.toBitVec).getLsbD 0 = value.toBitVec.getLsbD 0 := by
      rw [BitVec.getLsbD_cons, if_neg (by decide)]
    rw [isBit_eq_testBit _ (by decide), BitVec.msb_eq_getLsbD_last, BitVec.getLsbD_rotateRight]
    exact hlowest.symm
  unfold rrx ShiftKind.throughCarry
  rw [hvalue, hcarry]

/-- **The barrel shifter repeats a step.** A shift by a register takes as many steps of its kind as
the low byte of the register says. A shift by an amount given in the instruction takes that many
steps, but an amount of 0 stands for 32 steps in the shifts to the right, and for one rotation
through the carry. -/
theorem eq_iterate :
    byRegister kind value amount carry = kind.step^[amount.toNat % 256] ⟨value, carry⟩ ∧
    byImmediate kind value amount carry =
      if amount = 0 then
        match kind with
        | .lsl => ⟨value, carry⟩
        | .lsr | .asr => kind.step^[32] ⟨value, carry⟩
        | .ror => ShiftKind.throughCarry ⟨value, carry⟩
      else kind.step^[amount.toNat] ⟨value, carry⟩ := by
  constructor
  · have hbyte : (amount &&& 0xFF).toNat = amount.toNat % 256 := by
      rw [UInt32.toNat_and]
      exact Nat.and_two_pow_sub_one_eq_mod _ 8
    rw [← hbyte, ← byAmount_eq_iterate]
    rfl
  · split
    · next hzero =>
      subst hzero
      cases kind with
      | lsl => rfl
      | lsr => exact byAmount_eq_iterate .lsr value 32 carry
      | asr => exact byAmount_eq_iterate .asr value 32 carry
      | ror => exact rrx_eq value carry
    · next hzero =>
      rw [← byAmount_eq_iterate]
      cases kind <;> simp [byImmediate, hzero]

end

/-- A rotation by 33 is one by a single place, with the carry of the last one. -/
example : byRegister .ror 1 33 false = ⟨0x80000000, true⟩ := by decide

end Shifter
end Handheld
