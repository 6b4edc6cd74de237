import Handheld.Proofs.Arm.TransferEncoding
import Handheld.Proofs.Thumb.Expansion

/-!
# The words of long forms

The numbers in a short instruction are small, so that the long form of every instruction that a
halfword encodes has a word of its own.
-/

namespace Handheld.Thumb

open Word

/-! ## Small numbers -/

theorem toNat_imm5_lt (half : UInt16) : (imm5 half).toNat < 2 ^ 5 := by
  have hmask : (shl (1 : UInt16) 5 - 1).toNat = 2 ^ 5 - 1 := by decide
  have hfield : (imm5 half).toNat = (shr half 6).toNat &&& (2 ^ 5 - 1) := by
    rw [← hmask]
    exact UInt16.toNat_and _ _
  have hle : (shr half 6).toNat &&& (2 ^ 5 - 1) ≤ 2 ^ 5 - 1 := Nat.and_le_right
  omega

theorem toNat_imm8_lt (half : UInt16) : (imm8 half).toNat < 2 ^ 8 := by
  have hfield : (imm8 half).toNat = half.toNat &&& (2 ^ 8 - 1) := UInt16.toNat_and _ _
  have hle : half.toNat &&& (2 ^ 8 - 1) ≤ 2 ^ 8 - 1 := Nat.and_le_right
  omega

/-- A small number stays small when it counts larger units. -/
theorem toNat_shiftLeft_lt {x : UInt32} {a b : Nat} (hx : x.toNat < 2 ^ a) (hb : b < 32) :
    (x <<< UInt32.ofNat b).toNat < 2 ^ (a + b) := by
  have hamount : (UInt32.ofNat b).toNat % 32 = b := by
    rw [UInt32.toNat_ofNat']
    omega
  rw [UInt32.toNat_shiftLeft, hamount, Nat.shiftLeft_eq, Nat.pow_add]
  exact (Nat.mod_le _ _).trans_lt (Nat.mul_lt_mul_of_pos_right hx (Nat.two_pow_pos b))

namespace Instruction

/-- Whether the numbers in the instruction are as small as a halfword's fields allow. -/
def Small : Instruction → Prop
  | shift _ _ _ amount => amount.toNat < 2 ^ 5
  | immediate _ _ value => value.toNat < 2 ^ 8
  | transferImmediate _ _ _ offset => offset.toNat < 2 ^ 8
  | transferStack _ _ offset => offset.toNat < 2 ^ 10
  | _ => True

theorem Small.ite {p : Prop} [Decidable p] {i j : Instruction} (hi : i.Small) (hj : j.Small) :
    (if p then i else j).Small := by
  split <;> assumption

end Instruction

/-- The numbers of an instruction fit the halfword that it was read from. -/
theorem small_decode (isV5 : Bool) (half : UInt16) : (decode isV5 half).Small := by
  have himm5 := toNat_imm5_lt half
  have himm8 := toNat_imm8_lt half
  have hn : (UInt32.ofNat (reg half 6).val).toNat < 2 ^ 5 := by
    have hlt := (reg half 6).isLt
    rw [UInt32.toNat_ofNat']
    omega
  have hwords : (imm5 half <<< 2).toNat < 2 ^ 8 :=
    (toNat_shiftLeft_lt himm5 (by decide)).trans (by decide)
  have hhalves : (imm5 half <<< 1).toNat < 2 ^ 8 :=
    (toNat_shiftLeft_lt himm5 (by decide)).trans (by decide)
  have hbytes : (imm5 half).toNat < 2 ^ 8 := himm5.trans (by decide)
  have hstack : (imm8 half <<< 2).toNat < 2 ^ 10 := toNat_shiftLeft_lt himm8 (by decide)
  unfold decode
  repeat' apply Instruction.Small.ite
  all_goals first | exact trivial | assumption

/-! ## Words -/

variable (isV5 : Bool)

/-- An operation that sets the flags on a register and a byte that is not rotated. -/
theorem encodable_byte (op : Arm.AluOp) (n d : Register) {value : UInt32}
    (h : value.toNat < 2 ^ 8) :
    Arm.Encodable isV5 (.alu op true n d (.immediate value 0)) :=
  .alu isV5 n d (Bool.or_true _) ⟨h, by decide, by decide⟩

/-- An operation that sets the flags on a register and one that is shifted. -/
theorem encodable_shifted (op : Arm.AluOp) (n d m : Register) (shift : ShiftKind) {amount : UInt32}
    (h : amount.toNat < 2 ^ 5) :
    Arm.Encodable isV5 (.alu op true n d (.shiftedImmediate m shift amount)) :=
  .alu isV5 n d (Bool.or_true _) h

theorem AluOp.encodable (op : AluOp) (d s : Register) : Arm.Encodable isV5 (op.expansion d s) := by
  have hzero : (0 : UInt32).toNat < 2 ^ 5 := by decide
  cases op with
  | and | eor | adc | sbc | tst | cmp | cmn | orr | bic | mvn =>
    exact encodable_shifted isV5 _ _ _ _ .lsl hzero
  | lsl | lsr | asr | ror => exact .alu isV5 _ _ (Bool.or_true _) trivial
  | neg => exact encodable_byte isV5 _ _ _ (by decide)
  | mul => exact .multiply isV5 _ _ _ _ _ _

/-- Every single transfer is one of the two kinds that have words. -/
theorem TransferOp.kind_coded (op : TransferOp) :
    op.kind.isPlain = true ∨ op.kind.extraCode ≠ 0 := by
  cases op <;> decide

/-- A single transfer by a number, with more room for words and unsigned bytes. -/
theorem TransferOp.encodable_immediate (op : TransferOp) (n d : Register) {offset : UInt32}
    (h : offset.toNat < if op.kind.isPlain then 2 ^ 12 else 2 ^ 8) :
    Arm.Encodable isV5 (.transfer n d (.immediate offset) op.mode) := by
  refine .transfer isV5 n d rfl ?_ op.kind_coded
  show if op.kind.isPlain then offset.toNat < 2 ^ 12 else
    offset.toNat < 2 ^ 8 ∧ op.kind.extraCode ≠ 0
  by_cases hplain : op.kind.isPlain = true
  · rw [if_pos hplain] at h ⊢
    exact h
  · rw [if_neg hplain] at h ⊢
    exact ⟨h, op.kind_coded.resolve_left hplain⟩

theorem TransferOp.encodable_register (op : TransferOp) (n d o : Register) :
    Arm.Encodable isV5 (.transfer n d (op.offset o) op.mode) := by
  refine .transfer isV5 n d rfl ?_ op.kind_coded
  show Arm.TransferFits op.kind (op.offset o)
  cases op <;> simp [Arm.TransferFits, TransferOp.offset, TransferOp.kind,
    Arm.TransferKind.extraCode, Arm.TransferKind.isPlain]

theorem encodable_blockExpansion {n : Register} {set : UInt16} {mode : Arm.BlockMode}
    {i : Arm.Instruction} (h : blockExpansion? n set mode = some i) : Arm.Encodable isV5 i := by
  obtain ⟨-, rfl⟩ := blockExpansion?_eq_some.mp h
  exact .blockTransfer isV5 n set false mode

/-- The long form of an instruction with small numbers has a word. -/
theorem Instruction.Small.encodable {j : Instruction} {i : Arm.Instruction} (hsmall : j.Small)
    (h : j.expansion? = some i) : Arm.Encodable isV5 i := by
  cases j with
  | shift op d s amount =>
    cases op with
    | lsl | lsr | asr =>
      cases h
      exact encodable_shifted isV5 _ _ _ _ _ hsmall
    | add | sub =>
      cases h
      exact encodable_byte isV5 _ _ _ (hsmall.trans (by decide))
  | addSubtract subtract d s n =>
    cases h
    exact encodable_shifted isV5 _ _ _ _ _ (by decide)
  | immediate op d value =>
    cases op <;> cases h <;> exact encodable_byte isV5 _ _ _ hsmall
  | alu op d s =>
    cases h
    exact op.encodable isV5 _ _
  | transferRegister op d b o =>
    cases h
    exact op.encodable_register isV5 _ _ _
  | transferImmediate op d b offset =>
    cases h
    refine op.encodable_immediate isV5 _ _ (hsmall.trans_le ?_)
    split <;> decide
  | transferStack load d offset =>
    cases h
    refine TransferOp.encodable_immediate isV5 _ _ _ (hsmall.trans_le ?_)
    cases load <;> decide
  | push list lr => exact encodable_blockExpansion isV5 h
  | pop list pc =>
    cases pc with
    | true => cases h
    | false => exact encodable_blockExpansion isV5 h
  | storeBlock b list => exact encodable_blockExpansion isV5 h
  | loadBlock b list => exact encodable_blockExpansion isV5 h
  | _ => cases h

end Handheld.Thumb
