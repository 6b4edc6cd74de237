import Handheld.Checked.Decode
import Handheld.Proofs.Checked.Operators
import Handheld.Proofs.Cpu.CallWords

/-!
# Decoding with checked ranges

Every word and every halfword is decoded as without checks: a field lies within its word, an offset
that is multiplied by the size of an instruction stays a word, and the numbers of registers and
conditions are indices of their tables.
-/

namespace Handheld

open Word

theorem Word.toNat_and_lt (x : UInt32) {mask : UInt32} {size : ℕ} (h : mask.toNat < size) :
    (x &&& mask).toNat < size := by
  rw [UInt32.toNat_and]
  exact Nat.and_le_right.trans_lt h

theorem Word.toNat_and16_lt (x : UInt16) {mask : UInt16} {size : ℕ} (h : mask.toNat < size) :
    (x &&& mask).toNat < size := by
  rw [UInt16.toNat_and]
  exact Nat.and_le_right.trans_lt h

/-! ## Fields of long instructions -/

namespace Arm

section
variable (w : UInt32)

@[simp] theorem regChecked_eq (start : ℕ) : regChecked w start = .ok (reg w start) :=
  Checked.index_eq (toNat_and_lt (shr w start) (by decide))

@[simp] theorem conditionChecked_eq : conditionChecked w = .ok (condition w) := by
  refine Checked.index_eq ?_
  have hw := w.toNat_lt
  rw [UInt32.toNat_shiftRight, Nat.shiftRight_eq_div_pow]
  show w.toNat / 2 ^ 28 < 16
  omega

/-- A field that ends below the top bit is cut out by a mask that its width gives. -/
theorem fieldChecked_eq {first last : UInt32} (h : first ≤ last ∧ last < 31) :
    fieldChecked w first last = .ok (bits w first.toNat (last.toNat + 1 - first.toNat)) := by
  obtain ⟨hle, hlast⟩ := h
  have hfirst : first.toNat ≤ last.toNat := UInt32.le_iff_toNat_le.mp hle
  have htop : last.toNat < 31 := UInt32.lt_iff_toNat_lt.mp hlast
  have hspan : (last - first).toNat = last.toNat - first.toNat := UInt32.toNat_sub_of_le _ _ hle
  have hfits : (last - first).toNat + (1 : UInt32).toNat < 2 ^ 32 := by
    rw [hspan]
    show last.toNat - first.toNat + 1 < 2 ^ 32
    omega
  have hcount : (last - first + 1).toNat = last.toNat + 1 - first.toNat := by
    rw [UInt32.toNat_add, Nat.mod_eq_of_lt hfits, hspan]
    show last.toNat - first.toNat + 1 = _
    omega
  have hwidth : last.toNat + 1 - first.toNat < 32 := by omega
  have hmask : (1 : UInt32) ≤ 1 <<< UInt32.ofNat (last.toNat + 1 - first.toNat) := by
    rw [UInt32.le_iff_toNat_le, toNat_one_shiftLeft hwidth]
    exact Nat.one_le_two_pow
  rw [fieldChecked, Checked.sub_eq hle, Checked.ok_bind, Checked.add_eq hfits, Checked.ok_bind,
    hcount, Checked.shiftLeft_eq (α := UInt32) hwidth, Checked.ok_bind]
  show (do
    let mask ← Checked.sub (1 <<< UInt32.ofNat (last.toNat + 1 - first.toNat)) 1
    return (← Checked.shiftRight w first.toNat) &&& mask) = _
  rw [Checked.sub_eq hmask, Checked.ok_bind,
    Checked.shiftRight_eq (α := UInt32) (show first.toNat < 32 by omega), Checked.ok_bind, bits,
    shr_of_lt w (by omega), shl_of_lt _ hwidth]
  rfl

theorem wordOffset_bounds : -2 ^ 23 ≤ wordOffset w ∧ wordOffset w < 2 ^ 23 :=
  ⟨Int.le_bmod (by decide), Int.bmod_lt (by decide)⟩

theorem toInt_branchOffset : (branchOffset w).toInt = wordOffset w * 4 := by
  obtain ⟨hlow, hhigh⟩ := wordOffset_bounds w
  rw [branchOffset, Int32.toInt_mul, toInt_signExtend24]
  exact Int.bmod_eq_of_le (by show -_ ≤ wordOffset w * 4; omega)
    (by show wordOffset w * 4 < _; omega)

@[simp] theorem branchOffsetChecked_eq : branchOffsetChecked w = .ok (branchOffset w) := by
  obtain ⟨hlow, hhigh⟩ := wordOffset_bounds w
  have hproduct : (signExtend24 w).toInt * (4 : Int32).toInt = wordOffset w * 4 := by
    rw [toInt_signExtend24]
    rfl
  exact Checked.mulSigned_eq (by omega) (by omega)

@[simp] theorem callOffsetChecked_eq :
    callOffsetChecked w = .ok (branchOffset w + if isBit w 24 then 2 else 0) := by
  obtain ⟨hlow, hhigh⟩ := wordOffset_bounds w
  rw [callOffsetChecked, Checked.isBit_word w (by decide), Checked.ok_bind]
  have hoffset := toInt_branchOffset w
  have hhalf : (if isBit w 24 then 2 else 0 : Int32).toInt = if isBit w 24 then 2 else 0 := by
    cases isBit w 24 <;> rfl
  exact Checked.addSigned_eq (by omega) (by omega)

@[simp] theorem shiftKindChecked_eq : shiftKindChecked w = .ok (ShiftKind.ofBits w) := by
  have hfield : fieldChecked w 5 6 = .ok (bits w 5 2) := fieldChecked_eq w (by decide)
  rw [shiftKindChecked, hfield, Checked.ok_bind, ShiftKind.ofBits]
  split <;> simp_all

@[simp] theorem aluOpChecked_eq : aluOpChecked w = .ok (aluOp w) := by
  have hfield : fieldChecked w 21 24 = .ok (bits w 21 4) := fieldChecked_eq w (by decide)
  rw [aluOpChecked, hfield]
  rfl

@[simp] theorem aluChecked_eq (operand : Operand) : aluChecked w operand = .ok (alu w operand) := by
  simp (disch := decide) only [aluChecked, aluOpChecked_eq, Checked.isBit_word, regChecked_eq,
    Checked.ok_bind]
  rfl

@[simp] theorem multiplyChecked_eq (op : MulOp) : multiplyChecked w op = .ok (multiply w op) := by
  simp (disch := decide) only [multiplyChecked, Checked.isBit_word, regChecked_eq, Checked.ok_bind]
  rfl

@[simp] theorem transferModeChecked_eq (kind : TransferKind) :
    transferModeChecked w kind = .ok (transferMode w kind) := by
  simp (disch := decide) only [transferModeChecked, Checked.isBit_word, Checked.ok_bind]
  rfl

@[simp] theorem shiftedOffsetChecked_eq :
    shiftedOffsetChecked w =
      .ok (.shiftedRegister (reg w 0) (ShiftKind.ofBits w) (bits w 7 5)) := by
  have hfield : fieldChecked w 7 11 = .ok (bits w 7 5) := fieldChecked_eq w (by decide)
  rw [shiftedOffsetChecked, regChecked_eq, shiftKindChecked_eq, hfield]
  rfl

@[simp] theorem extraOffsetChecked_eq : extraOffsetChecked w = .ok (extraOffset w) := by
  simp (disch := decide) only [extraOffsetChecked, Checked.isBit_word, regChecked_eq,
    Checked.ok_bind, Checked.pure_eq, Checked.ite_ok]
  rfl

@[simp] theorem extraKindChecked_eq (isV5 : Bool) :
    extraKindChecked isV5 w = .ok (extraKind? isV5 w) := by
  have hfield : fieldChecked w 5 6 = .ok (bits w 5 2) := fieldChecked_eq w (by decide)
  simp (disch := decide) only [extraKindChecked, Checked.isBit_word, hfield, Checked.ok_bind,
    extraKind?]
  split <;> simp_all

@[simp] theorem coprocessorChecked_eq : coprocessorChecked w = .ok (coprocessor w) := by
  simp (disch := decide) only [coprocessorChecked, fieldChecked_eq, regChecked_eq, Checked.ok_bind]
  rfl

@[simp] theorem writeStatusChecked_eq (source : StatusSource) :
    writeStatusChecked w source = .ok (writeStatus w source) := by
  simp (disch := decide) only [writeStatusChecked, Checked.isBit_word, Checked.ok_bind]
  rfl

/-! ## Long instructions -/

@[simp] theorem decodeUnconditionalChecked_eq :
    decodeUnconditionalChecked w = .ok (decodeUnconditional w) := by
  have hfield : fieldChecked w 25 27 = .ok (bits w 25 3) := fieldChecked_eq w (by decide)
  simp only [decodeUnconditionalChecked, hfield, callOffsetChecked_eq, Checked.ok_bind,
    Checked.pure_eq, Checked.ite_ok]
  rfl

theorem decodeAsChecked_eq (isV5 : Bool) (e : Encoding) :
    decodeAsChecked isV5 w e = .ok (decodeAs isV5 w e) := by
  have halfOp : fieldChecked w 21 22 = .ok (bits w 21 2) := fieldChecked_eq w (by decide)
  have mulOp : fieldChecked w 21 23 = .ok (bits w 21 3) := fieldChecked_eq w (by decide)
  have comment : fieldChecked w 16 23 = .ok (bits w 16 8) := fieldChecked_eq w (by decide)
  have rotation : fieldChecked w 8 11 = .ok (bits w 8 4) := fieldChecked_eq w (by decide)
  have amount : fieldChecked w 7 11 = .ok (bits w 7 5) := fieldChecked_eq w (by decide)
  cases e <;> conv_lhs =>
    simp (disch := decide) only [decodeAsChecked, halfOp, mulOp, comment, rotation, amount,
      Checked.isBit_word, branchOffsetChecked_eq, coprocessorChecked_eq, multiplyChecked_eq,
      regChecked_eq, writeStatusChecked_eq, extraKindChecked_eq, extraOffsetChecked_eq,
      transferModeChecked_eq, aluChecked_eq, shiftKindChecked_eq, shiftedOffsetChecked_eq,
      Checked.ok_bind, Checked.pure_eq, Checked.ite_ok]
  case multiply =>
    unfold decodeAs
    split <;> simp_all
  case extraTransfer =>
    unfold decodeAs
    split <;> simp_all
  case transfer =>
    unfold decodeAs
    cases isBit w 25 <;> rfl
  all_goals rfl

@[simp] theorem decodeChecked_eq (isV5 : Bool) : decodeChecked isV5 w = .ok (decode isV5 w) := by
  rw [decodeChecked, decodeUnconditionalChecked_eq, decodeAsChecked_eq, Checked.ite_ok]
  rfl

end

/-- A doubleword goes to an even register, whatever the condition. -/
theorem even_of_transfer {isV5 : Bool} {w : UInt32} {n d : Register} {offset : Offset}
    {mode : TransferMode} (h : decode isV5 w = .transfer n d offset mode)
    (hdouble : mode.kind.isDouble = true) : d.val % 2 = 0 := by
  unfold decode at h
  split_ifs at h
  · unfold decodeUnconditional at h
    split_ifs at h
  · exact even_of_decodeAs h hdouble

end Arm

/-! ## Short instructions -/

namespace Thumb

variable (half : UInt16)

@[simp] theorem regChecked_eq (start : ℕ) : regChecked half start = .ok (reg half start) :=
  Checked.index_eq (toNat_and16_lt (shr half start) (by decide))

/-- The two registers of an operation on all sixteen, of which the second is in two parts. -/
@[simp] theorem highRegsChecked_eq : highRegsChecked half = .ok (highRegs half) := by
  have hfirst : (bits half 3 4).toNat < 16 := toNat_and16_lt (shr half 3) (by decide)
  have hsecond : ((bits half 0 3) ||| (bit half 7 <<< 3)).toNat < 16 := by
    rw [UInt16.toNat_or]
    show _ < 2 ^ 4
    refine Nat.or_lt_two_pow (toNat_and16_lt (shr half 0) (by decide)) ?_
    have hbit : (bit half 7).toNat < 2 := toNat_and16_lt (half >>> 7) (by decide)
    rw [UInt16.toNat_shiftLeft, Nat.shiftLeft_eq]
    show (bit half 7).toNat * 2 ^ 3 % 2 ^ 16 < 2 ^ 4
    omega
  rw [highRegsChecked, Checked.index_eq hfirst, Checked.ok_bind,
    Checked.bit_eq (α := UInt16) (show 7 < 16 by decide), Checked.ok_bind,
    Checked.index_eq hsecond]
  rfl

@[simp] theorem conditionChecked_eq :
    conditionChecked half = .ok (Fin.ofNat 16 (bits half 8 4).toNat) :=
  Checked.index_eq (toNat_and16_lt (shr half 8) (by decide))

@[simp] theorem stackOffsetChecked_eq :
    stackOffsetChecked half =
      .ok (if isBit half 7 then -(imm7 half).toInt32 else (imm7 half).toInt32) := by
  have hvalue : (imm7 half).toNat < 2 ^ 16 := by
    rw [imm7, UInt16.toNat_toUInt32]
    exact UInt16.toNat_lt _
  have hcases := toInt32_cases (imm7 half)
  rw [stackOffsetChecked, Checked.isBit_short half (by decide), Checked.ok_bind,
    Checked.negSigned_eq (by omega) (by omega), Checked.pure_eq, Checked.ite_ok]

theorem mulSigned_two {a : Int32} (h : -2 ^ 15 ≤ a.toInt ∧ a.toInt < 2 ^ 15) :
    Checked.mulSigned a 2 = .ok (a * 2) := by
  have hproduct : a.toInt * (2 : Int32).toInt = a.toInt * 2 := rfl
  exact Checked.mulSigned_eq (by omega) (by omega)

theorem signExtend8_bounds (x : UInt32) :
    -2 ^ 15 ≤ (signExtend8 x).toInt32.toInt ∧ (signExtend8 x).toInt32.toInt < 2 ^ 15 := by
  have hvalue : (signExtend8 x).toInt32.toInt = x.toUInt8.toInt8.toInt :=
    Int8.toInt_toInt32 x.toUInt8.toInt8
  have hlow := Int8.le_toInt x.toUInt8.toInt8
  have hhigh := Int8.toInt_lt x.toUInt8.toInt8
  rw [hvalue]
  exact ⟨by omega, by omega⟩

theorem signExtend11_bounds :
    -2 ^ 15 ≤ (signExtend11 half).toInt ∧ (signExtend11 half).toInt < 2 ^ 15 := by
  rw [signExtend11, Int16.toInt_toInt32]
  exact ⟨Int16.le_toInt _, Int16.toInt_lt _⟩

@[simp] theorem shortOffsetChecked_eq :
    shortOffsetChecked half = .ok ((signExtend8 (imm8 half)).toInt32 * 2) :=
  mulSigned_two (signExtend8_bounds _)

@[simp] theorem branchOffsetChecked_eq :
    branchOffsetChecked half = .ok (signExtend11 half * 2) :=
  mulSigned_two (signExtend11_bounds half)

@[simp] theorem decodeChecked_eq (isV5 : Bool) :
    decodeChecked isV5 half = .ok (decode isV5 half) := by
  simp only [decodeChecked, regChecked_eq, Checked.ok_bind]
  -- One goal for each line of the chart.
  repeat' refine Checked.ite_eq_ok ?_ ?_
  all_goals simp (disch := decide) only [highRegsChecked_eq, conditionChecked_eq,
    stackOffsetChecked_eq, shortOffsetChecked_eq, branchOffsetChecked_eq, Checked.isBit_short,
    Checked.ok_bind, Checked.pure_eq]

end Thumb
end Handheld
