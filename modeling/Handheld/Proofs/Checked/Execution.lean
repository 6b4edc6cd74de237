import Handheld.Checked.Execute
import Handheld.Proofs.Checked.Core
import Handheld.Proofs.Checked.Decoding

/-!
# Execution with checked ranges

The instructions of both sets, class by class, evaluate nothing out of range. Block transfers are
left to the step, since one of them may. That a doubleword has a second register is told by the
decoder.
-/

namespace Handheld.Core

open Word MachineM CheckedM

variable {σ : Type} (core : Core σ)

/-! ## Data processing -/

section
open Arm

@[simp] theorem aluOperandsChecked_eq (n : Register) (carry : Bool) (operand : Operand) :
    (aluOperandsChecked n carry operand : CheckedM σ (UInt32 × Shifted)) =
      run (aluOperands n carry operand) := by
  cases operand <;>
    simp (disch := decide) only [aluOperandsChecked, aluOperands, Checked.isBit_word,
      Shifter.byImmediateChecked_eq, Shifter.byRegisterChecked_eq, lift_ok, run_pure, run_bind,
      pure_bind]

@[simp] theorem aluResultChecked_eq (op : AluOp) (a b : UInt32) (carry : Bool) :
    aluResultChecked op a b carry = .ok (aluResult op a b carry) := by
  cases op <;>
    simp only [aluResultChecked, aluResult, Arithmetic.addChecked_eq,
      Arithmetic.addCarryChecked_eq, Arithmetic.subCarryChecked_eq, Checked.ok_bind,
      Checked.pure_eq]

@[simp] theorem aluOutcomeChecked_eq (result : UInt32 ⊕ Sum32) (carry : Bool) (status : UInt32) :
    aluOutcomeChecked result carry status = .ok (aluOutcome result carry status) := by
  cases result <;> rfl

@[simp] theorem executeAluChecked_eq (op : AluOp) (setFlags : Bool) (n d : Register)
    (operand : Operand) :
    core.executeAluChecked op setFlags n d operand =
      run (core.executeAlu op setFlags n d operand) := by
  simp only [executeAluChecked, executeAlu, CpuState.isFlagChecked_eq, evaluate_ok,
    aluOperandsChecked_eq, aluResultChecked_eq, aluOutcomeChecked_eq, lift_ok,
    CpuState.setCpsrChecked_eq, Checked.pure_eq, Checked.ite_ok, alter_ok, setRegChecked_eq,
    run_pure, run_bind, run_ite, pure_bind]

/-! ## Multiplication -/

@[simp] theorem executeMultiplyChecked_eq (op : MulOp) (setFlags : Bool) (d n s m : Register) :
    core.executeMultiplyChecked op setFlags d n s m =
      run (core.executeMultiply op setFlags d n s m) := by
  have hsign : ∀ value : UInt64, Checked.isBit value 63 = .ok (isBit value 63) :=
    fun _ => Checked.isBit_eq (α := UInt64) (by decide)
  cases setFlags <;> cases op <;>
    simp only [executeMultiplyChecked, executeMultiply, setRegChecked_eq, hsign,
      alter_setFlag, lift_ok, run_bind, run_ite, pure_bind, Bool.false_and, Bool.true_and,
      Bool.false_eq_true, ↓reduceIte]

@[simp] theorem markSaturatedChecked_eq (out : Bool) :
    (markSaturatedChecked out : CheckedM σ Unit) = run (markSaturated out) := by
  simp only [markSaturatedChecked, CpuState.setFlagChecked_eq, alter_ok, run_pure, run_ite]
  rfl

@[simp] theorem executeHalfMultiplyChecked_eq (op : HalfMulOp) (d n s m : Register)
    (xTop yTop : Bool) :
    core.executeHalfMultiplyChecked op d n s m xTop yTop =
      run (core.executeHalfMultiply op d n s m xTop yTop) := by
  cases op <;>
    simp only [executeHalfMultiplyChecked, executeHalfMultiply, Arithmetic.halfProductChecked_eq,
      Arithmetic.mixedProductChecked_eq, markSaturatedChecked_eq, setRegChecked_eq, lift_ok,
      run_bind, pure_bind]

@[simp] theorem executeSaturatingChecked_eq (op : SaturatingOp) (d n m : Register) :
    core.executeSaturatingChecked op d n m = run (core.executeSaturating op d n m) := by
  cases op <;>
    simp only [executeSaturatingChecked, executeSaturating, markSaturatedChecked_eq,
      setRegChecked_eq, run_bind]

/-! ## Status registers -/

@[simp] theorem executeWriteStatusChecked_eq (source : StatusSource)
    (flags control saved : Bool) :
    (executeWriteStatusChecked source flags control saved : CheckedM σ Unit) =
      run (executeWriteStatus source flags control saved) := by
  cases source <;>
    simp (disch := decide) only [executeWriteStatusChecked, executeWriteStatus,
      Checked.setBit_eq, CpuState.setCpsrChecked_eq, Checked.ok_bind, Checked.pure_eq,
      Checked.ite_ok, alter_ok, run_pure, run_bind]

/-! ## Transfers -/

@[simp] theorem transferOffsetChecked_eq (s : CpuState) (offset : Offset) :
    transferOffsetChecked s offset = .ok (transferOffset s offset) := by
  cases offset <;>
    simp only [transferOffsetChecked, transferOffset, CpuState.isFlagChecked_eq,
      Shifter.byImmediateChecked_eq, Checked.ok_bind, Checked.pure_eq]

/-- The second register of a doubleword is there. -/
theorem transferDataChecked_eq {kind : TransferKind} {d : Register}
    (h : kind.isDouble = true → d.val % 2 = 0) (address : UInt32) :
    core.transferDataChecked kind d address = run (core.transferData kind d address) := by
  have hsecond : kind.isDouble = true → Checked.index 16 (d.val + 1) = .ok (d + 1) := by
    intro hdouble
    have heven := h hdouble
    have hlt := d.isLt
    exact Checked.index_eq (by omega)
  cases kind with
  | loadDouble =>
    simp only [transferDataChecked, transferData, loadChecked_eq, setRegChecked_eq, hsecond rfl,
      lift_ok, run_bind, pure_bind]
  | storeDouble =>
    simp only [transferDataChecked, transferData, hsecond rfl, lift_ok, run_bind, pure_bind]
  | _ =>
    simp only [transferDataChecked, transferData, loadChecked_eq, loadRotatedChecked_eq,
      loadSignedHalfChecked_eq, loadSignedByteChecked_eq, setRegChecked_eq, setLoadedChecked_eq,
      run_bind]

theorem executeTransferChecked_eq {mode : TransferMode} {d : Register}
    (h : mode.kind.isDouble = true → d.val % 2 = 0) (n : Register) (offset : Offset) :
    core.executeTransferChecked n d offset mode = run (core.executeTransfer n d offset mode) := by
  simp only [executeTransferChecked, executeTransfer, transferOffsetChecked_eq, evaluate_ok,
    core.transferDataChecked_eq h, setRegChecked_eq, run_bind, run_ite]

@[simp] theorem executeSwapChecked_eq (n d m : Register) (byte : Bool) :
    core.executeSwapChecked n d m byte = run (core.executeSwap n d m byte) := by
  cases byte <;>
    simp only [executeSwapChecked, executeSwap, loadChecked_eq, loadRotatedChecked_eq,
      setRegChecked_eq, run_bind, Bool.false_eq_true, ↓reduceIte]

/-! ## Coprocessors -/

@[simp] theorem executeReadCoprocessorChecked_eq (inst : UInt32) (c : Coprocessor) :
    core.executeReadCoprocessorChecked inst c = run (core.executeReadCoprocessor inst c) := by
  simp only [executeReadCoprocessorChecked, executeReadCoprocessor, skipUnknownChecked_eq,
    setRegChecked_eq, run_bind, run_ite]

@[simp] theorem executeWriteCoprocessorChecked_eq (inst : UInt32) (c : Coprocessor) :
    core.executeWriteCoprocessorChecked inst c = run (core.executeWriteCoprocessor inst c) := by
  simp only [executeWriteCoprocessorChecked, executeWriteCoprocessor, skipUnknownChecked_eq,
    run_bind, run_ite]

/-! ## Long instructions -/

/-! ## Long instructions -/

theorem runArmChecked_eq {isV5 : Bool} {word : UInt32} {i : Instruction}
    (hdecode : decode isV5 word = i)
    (hblock : ∀ n list statusBit mode, i ≠ .blockTransfer n list statusBit mode)
    (inst : UInt32) : core.runArmChecked inst i = run (core.runArm inst i) := by
  have hbit : ∀ status : UInt32, Checked.setBit status 4 true = .ok (setBit status 4 true) :=
    fun _ => Checked.setBit_eq (α := UInt32) (by decide) true
  cases i with
  | blockTransfer n list statusBit mode => exact absurd rfl (hblock n list statusBit mode)
  | transfer n d offset mode =>
    exact core.executeTransferChecked_eq (even_of_transfer hdecode) n offset
  | _ =>
    simp only [runArmChecked, runArm, skipUnknownChecked_eq, softwareInterruptChecked_eq,
      jumpByChecked_eq, jumpChecked_eq, exchangeChecked_eq, CpuState.setFlagChecked_eq, alter_ok,
      executeAluChecked_eq, executeMultiplyChecked_eq, executeHalfMultiplyChecked_eq,
      executeSaturatingChecked_eq, setRegChecked_eq, hbit, lift_ok, executeWriteStatusChecked_eq,
      executeSwapChecked_eq, executeReadCoprocessorChecked_eq, executeWriteCoprocessorChecked_eq,
      run_pure, run_bind, run_ite, pure_bind]

end

/-! ## Short instructions -/

section
open Thumb

@[simp] theorem withSumChecked_eq (sum : Sum32) :
    (withSumChecked sum : CheckedM σ UInt32) = run (withSum sum) := by
  simp only [withSumChecked, withSum, Arithmetic.withSumChecked_eq, Checked.ok_bind,
    Checked.pure_eq, alter_ok, run_pure, run_bind]

@[simp] theorem executeShiftChecked_eq (op : ShiftOp) (d s : LowRegister) (amount : UInt32) :
    (executeShiftChecked op d s amount : CheckedM σ Unit) = run (executeShift op d s amount) := by
  cases op <;>
    simp only [executeShiftChecked, executeShift, CpuState.isFlagChecked_eq, evaluate_ok,
      Shifter.byImmediateChecked_eq, Arithmetic.addChecked_eq, lift_ok, withSumChecked_eq, run_bind,
      pure_bind]

@[simp] theorem executeImmediateChecked_eq (op : ImmediateOp) (d : LowRegister)
    (value : UInt32) :
    (executeImmediateChecked op d value : CheckedM σ Unit) = run (executeImmediate op d value) := by
  cases op <;>
    simp only [executeImmediateChecked, executeImmediate, Arithmetic.addChecked_eq, lift_ok,
      withSumChecked_eq, run_pure, run_bind, pure_bind]

@[simp] theorem shiftByRegisterChecked_eq (kind : ShiftKind) (a b : UInt32) (carry : Bool) :
    (shiftByRegisterChecked kind a b carry : CheckedM σ UInt32) =
      run (shiftByRegister kind a b carry) := by
  simp only [shiftByRegisterChecked, shiftByRegister, Shifter.byRegisterChecked_eq, lift_ok,
    run_bind, pure_bind]

@[simp] theorem executeThumbAluChecked_eq (op : AluOp) (d s : LowRegister) :
    core.executeThumbAluChecked op d s = run (core.executeThumbAlu op d s) := by
  cases op <;>
    simp only [executeThumbAluChecked, executeThumbAlu, CpuState.isFlagChecked_eq, evaluate_ok,
      shiftByRegisterChecked_eq, Arithmetic.addChecked_eq, Arithmetic.addCarryChecked_eq,
      Arithmetic.subCarryChecked_eq, alter_setFlag, lift_ok, withSumChecked_eq, run_pure, run_bind,
      run_ite, pure_bind, bind_assoc]

@[simp] theorem executeThumbTransferChecked_eq (op : TransferOp) (d : LowRegister)
    (address : UInt32) :
    core.executeThumbTransferChecked op d address =
      run (core.executeThumbTransfer op d address) := by
  cases op <;>
    simp only [executeThumbTransferChecked, executeThumbTransfer, loadChecked_eq,
      loadRotatedChecked_eq, loadSignedHalfChecked_eq, loadSignedByteChecked_eq, run_bind]

@[simp] theorem executeCallChecked_eq (offset : UInt32) (short : Bool) :
    core.executeCallChecked offset short = run (core.executeCall offset short) := by
  have htarget : ∀ target : UInt32,
      Address.alignDownChecked target 4 = .ok (Address.alignDown target 4) :=
    fun target => Address.alignDownChecked_eq target (by decide)
  simp only [executeCallChecked, executeCall, alter_setFlag, htarget, lift_ok, jumpChecked_eq,
    run_bind, run_ite, pure_bind]

theorem runThumbChecked_eq {i : Instruction}
    (hpush : ∀ list lr, i ≠ .push list lr) (hpop : ∀ list pc, i ≠ .pop list pc)
    (hstore : ∀ b list, i ≠ .storeBlock b list) (hload : ∀ b list, i ≠ .loadBlock b list)
    (inst : UInt16) : core.runThumbChecked inst i = run (core.runThumb inst i) := by
  cases i with
  | push list lr => exact absurd rfl (hpush list lr)
  | pop list pc => exact absurd rfl (hpop list pc)
  | storeBlock b list => exact absurd rfl (hstore b list)
  | loadBlock b list => exact absurd rfl (hload b list)
  | addSubtract subtract d s n =>
    cases subtract <;>
      simp only [runThumbChecked, runThumb, Arithmetic.addChecked_eq, lift_ok, withSumChecked_eq,
        run_pure, run_bind, pure_bind, Bool.false_eq_true, ↓reduceIte]
  | _ =>
    simp only [runThumbChecked, runThumb, skipUnknownChecked_eq, executeShiftChecked_eq,
      executeImmediateChecked_eq, executeThumbAluChecked_eq, setRegChecked_eq, withSumChecked_eq,
      exchangeChecked_eq, loadChecked_eq, executeThumbTransferChecked_eq,
      CpuState.holdsChecked_eq, evaluate_ok, jumpByChecked_eq, softwareInterruptChecked_eq,
      executeCallChecked_eq, run_pure, run_bind, run_ite]

end

end Handheld.Core
