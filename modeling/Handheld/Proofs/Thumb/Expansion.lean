import Handheld.Arm.Execute
import Handheld.Thumb.Execute
import Handheld.Proofs.Cpu.Course

/-!
# Short instructions as long ones

Most short instructions are long instructions in a shorter form. `expansion?` names the long one
of every such instruction, and a core executes both alike.
-/

namespace Handheld

open Word MachineM

variable {σ : Type}

namespace Thumb

/-! ## The long form -/

/-- The long form of an operation on two registers. Comparisons have no destination, moves no
first operand; the fields are zero there. -/
def AluOp.expansion (op : AluOp) (d s : Register) : Arm.Instruction :=
  let combine (op : Arm.AluOp) : Arm.Instruction := .alu op true d d (.shiftedImmediate s .lsl 0)
  let compare (op : Arm.AluOp) : Arm.Instruction := .alu op true d 0 (.shiftedImmediate s .lsl 0)
  let shift (kind : ShiftKind) : Arm.Instruction :=
    .alu .mov true 0 d (.shiftedRegister d kind s)
  match op with
  | and => combine .and
  | eor => combine .eor
  | lsl => shift .lsl
  | lsr => shift .lsr
  | asr => shift .asr
  | adc => combine .adc
  | sbc => combine .sbc
  | ror => shift .ror
  | tst => compare .tst
  | neg => .alu .rsb true s d (.immediate 0 0)
  | cmp => compare .cmp
  | cmn => compare .cmn
  | orr => combine .orr
  | mul => .multiply .mul true d 0 d s
  | bic => combine .bic
  | mvn => .alu .mvn true 0 d (.shiftedImmediate s .lsl 0)

/-- What a single transfer moves. -/
def TransferOp.kind : TransferOp → Arm.TransferKind
  | storeWord => .storeWord
  | storeHalf => .storeHalf
  | storeByte => .storeByte
  | loadSignedByte => .loadSignedByte
  | loadWord => .loadWord
  | loadHalf => .loadHalf
  | loadByte => .loadByte
  | loadSignedHalf => .loadSignedHalf

/-- A single transfer that adds its offset first and does not keep the sum. -/
def TransferOp.mode (op : TransferOp) : Arm.TransferMode :=
  { pre := true, up := true, kind := op.kind, writeback := false }

/-- The offset of a single transfer that is given in a register. Only halfwords and signed bytes
know an unshifted one. -/
def TransferOp.offset (op : TransferOp) (o : Register) : Arm.Offset :=
  match op with
  | storeWord | storeByte | loadWord | loadByte => .shiftedRegister o .lsl 0
  | storeHalf | loadHalf | loadSignedByte | loadSignedHalf => .register o

/-- The long form of a block transfer, unless the list is empty. -/
def blockExpansion? (n : Register) (set : UInt16) (mode : Arm.BlockMode) :
    Option Arm.Instruction :=
  if Register.ofSet set = [] then none else some (.blockTransfer n set false mode)

theorem blockExpansion?_eq_some {n : Register} {set : UInt16} {mode : Arm.BlockMode}
    {i : Arm.Instruction} :
    blockExpansion? n set mode = some i ↔
      Register.ofSet set ≠ [] ∧ i = .blockTransfer n set false mode := by
  unfold blockExpansion?
  by_cases h : Register.ofSet set = []
  · simp [h]
  · simp [h, eq_comm]

namespace Instruction

/-- The long form of an instruction: of all operations on low registers, of single transfers that
are not relative to the program counter, and of block transfers of some registers without it. -/
def expansion? : Instruction → Option Arm.Instruction
  | shift .lsl d s amount => some (.alu .mov true 0 d.wide (.shiftedImmediate s.wide .lsl amount))
  | shift .lsr d s amount => some (.alu .mov true 0 d.wide (.shiftedImmediate s.wide .lsr amount))
  | shift .asr d s amount => some (.alu .mov true 0 d.wide (.shiftedImmediate s.wide .asr amount))
  | shift .add d s amount => some (.alu .add true s.wide d.wide (.immediate amount 0))
  | shift .sub d s amount => some (.alu .sub true s.wide d.wide (.immediate amount 0))
  | addSubtract subtract d s n =>
    some (.alu (if subtract then .sub else .add) true s.wide d.wide
      (.shiftedImmediate n.wide .lsl 0))
  | immediate .mov d value => some (.alu .mov true 0 d.wide (.immediate value 0))
  | immediate .cmp d value => some (.alu .cmp true d.wide 0 (.immediate value 0))
  | immediate .add d value => some (.alu .add true d.wide d.wide (.immediate value 0))
  | immediate .sub d value => some (.alu .sub true d.wide d.wide (.immediate value 0))
  | alu op d s => some (op.expansion d.wide s.wide)
  | transferRegister op d b o => some (.transfer b.wide d.wide (op.offset o.wide) op.mode)
  | transferImmediate op d b offset => some (.transfer b.wide d.wide (.immediate offset) op.mode)
  | transferStack load d offset =>
    let op : TransferOp := if load then .loadWord else .storeWord
    some (.transfer Register.sp d.wide (.immediate offset) op.mode)
  | push list lr =>
    blockExpansion? Register.sp (list.toUInt16 ||| (if lr then 0x4000 else 0))
      { pre := true, up := false, load := false, writeback := true }
  | pop list pc =>
    if pc then none
    else blockExpansion? Register.sp list.toUInt16
      { pre := false, up := true, load := true, writeback := true }
  | storeBlock b list =>
    blockExpansion? b.wide list.toUInt16
      { pre := false, up := true, load := false, writeback := true }
  | loadBlock b list =>
    blockExpansion? b.wide list.toUInt16
      { pre := false, up := true, load := true, writeback := true }
  | _ => none

end Instruction
end Thumb

/-! ## Data processing -/

namespace Arithmetic

/-- A logical result that keeps the carry is one whose shifter hands the carry on. -/
theorem withNZ_eq (status value : UInt32) :
    withNZ status value = withNZC status value (isBit status Flag.carry.position) := by
  refine ext_isBit fun i hi => ?_
  rw [isBit_withNZ _ _ hi, isBit_withNZC _ _ _ hi]
  by_cases hc : i = 29
  · subst hc
    rfl
  · simp [hc]

end Arithmetic

namespace Core

variable (core : Core σ)

theorem setReg_wide (d : LowRegister) (value : UInt32) :
    core.setReg d.wide value = putLow d value := if_neg (CpuState.wide_ne_pc d)

/-- What a data-processing instruction makes of a low register and the flags, once it has read
its operands. -/
def computed (op : Arm.AluOp) (d : LowRegister) (carry : Bool)
    (operands : (UInt32 × Shifted) × Machine σ) : Machine σ :=
  let s := operands.2.cpu
  let outcome := aluOutcome (aluResult op operands.1.1 operands.1.2.value carry)
    operands.1.2.carry s.cpsr
  let flagged := { s with cpsr := outcome.2 }
  { operands.2 with cpu := if op.writes then flagged.setLow d outcome.1 else flagged }

/-- A data-processing instruction that sets the flags and a low register. -/
theorem runArm_alu (word : UInt32) (op : Arm.AluOp) (n : Register) (d : LowRegister)
    (operand : Arm.Operand) (m : Machine σ) :
    core.runArm word (.alu op true n d.wide operand) m =
      ((), computed op d (m.cpu.isFlag .carry)
        (aluOperands n (m.cpu.isFlag .carry) operand m)) := by
  have hd := CpuState.wide_ne_pc d
  show core.executeAlu op true n d.wide operand m = _
  unfold executeAlu computed
  simp only [setReg_wide, if_neg hd, if_true]
  cases op.writes <;> rfl

/-- A byte that is not rotated. -/
theorem aluOperands_immediate (n : Register) (carry : Bool) (value : UInt32) :
    (aluOperands n carry (.immediate value 0) : MachineM σ (UInt32 × Shifted)) =
      fun m => ((m.cpu.reg n, ⟨value, carry⟩), m) := by
  funext m
  show ((m.cpu.reg n, (⟨rotateRight value 0, carry⟩ : Shifted)), m) = _
  rw [rotateRight_zero]

theorem lateReg_wide (d : LowRegister) (s : CpuState) : s.lateReg d.wide = s.low d :=
  if_neg (CpuState.wide_ne_pc d)

/-- A low register that is shifted by another one. -/
theorem aluOperands_shiftedRegister (n d s : LowRegister) (kind : ShiftKind) (carry : Bool) :
    (aluOperands n.wide carry (.shiftedRegister d.wide kind s.wide) :
      MachineM σ (UInt32 × Shifted)) = do
        idle
        let a ← low n
        let b ← low d
        return (a, Shifter.byRegister kind b (← low s) carry) := by
  unfold aluOperands
  simp only [lateReg_wide]
  rfl

/-- A logical result as one whose shifter hands the carry on. -/
theorem withLogical_eq (value : UInt32) :
    (withLogical value : MachineM σ UInt32) = fun m =>
      (value, { m with
        cpu := { m.cpu with
          cpsr := Arithmetic.withNZC m.cpu.cpsr value (m.cpu.isFlag .carry) } }) := by
  funext m
  unfold withLogical
  simp only [Arithmetic.withNZ_eq]
  rfl

section
variable (word : UInt32) {i : Arm.Instruction}

/-- A shift by an amount moves a shifted register, a sum with a small number has an immediate
operand. -/
theorem executeShift_expansion {op : Thumb.ShiftOp} {d s : LowRegister} {amount : UInt32}
    (h : (Thumb.Instruction.shift op d s amount).expansion? = some i) :
    executeShift op d s amount = core.runArm word i := by
  funext m
  cases op <;> cases h <;> rw [runArm_alu]
  case add | sub =>
    rw [aluOperands_immediate]
    rfl
  all_goals rfl

theorem executeImmediate_expansion {op : Thumb.ImmediateOp} {d : LowRegister} {value : UInt32}
    (h : (Thumb.Instruction.immediate op d value).expansion? = some i) :
    executeImmediate op d value = core.runArm word i := by
  funext m
  cases op with
  | mov =>
    cases h
    unfold executeImmediate
    rw [runArm_alu, aluOperands_immediate, withLogical_eq]
    rfl
  | cmp =>
    cases h
    refine Eq.trans ?_ (core.runArm_alu word .cmp d.wide 0 _ m).symm
    rw [aluOperands_immediate]
    rfl
  | add =>
    cases h
    rw [runArm_alu, aluOperands_immediate]
    rfl
  | sub =>
    cases h
    rw [runArm_alu, aluOperands_immediate]
    rfl

/-- What a multiplication makes of a machine: a low register, the flags and the time that passes,
which does not show in the others. -/
def multiplied (d : LowRegister) (value multiplier : UInt32) (m : Machine σ) : Machine σ :=
  let flagged := { m.cpu with cpsr := Arithmetic.withNZ m.cpu.cpsr value }
  let flagged := if core.processor.isV5 then flagged else flagged.setFlag .carry false
  { m with
    cpu := { flagged.setLow d value with accessType := Access.nonSequential }
    cycles := m.cycles + 1 + (multiplierCycles multiplier true).toUInt64 }

theorem executeMultiply_expansion (d s : LowRegister) :
    core.executeThumbAlu .mul d s =
      core.runArm word (.multiply .mul true d.wide 0 d.wide s.wide) := by
  funext m
  have hthumb : core.executeThumbAlu .mul d s m =
      ((), core.multiplied d (m.cpu.low d * m.cpu.low s) (m.cpu.low d) m) := by
    unfold executeThumbAlu multiplied
    cases core.processor.isV5 <;> rfl
  have harm : core.executeMultiply .mul true d.wide 0 d.wide s.wide m =
      ((), core.multiplied d (m.cpu.low s * m.cpu.low d) (m.cpu.low d) m) := by
    unfold executeMultiply multiplied
    simp only [setReg_wide]
    cases core.processor.isV5 <;> rfl
  rw [hthumb, UInt32.mul_comm]
  exact harm.symm

theorem executeThumbAlu_expansion (op : Thumb.AluOp) (d s : LowRegister) :
    core.executeThumbAlu op d s = core.runArm word (op.expansion d.wide s.wide) := by
  funext m
  cases op <;> simp only [Thumb.AluOp.expansion]
  case mul => rw [executeMultiply_expansion]
  case and | eor | orr | bic | mvn =>
    unfold executeThumbAlu
    simp only [withLogical_eq]
    rw [runArm_alu]
    rfl
  case tst =>
    unfold executeThumbAlu
    simp only [withLogical_eq]
    exact (core.runArm_alu word .tst d.wide 0 (.shiftedImmediate s.wide .lsl 0) m).symm
  case cmp => exact (core.runArm_alu word .cmp d.wide 0 (.shiftedImmediate s.wide .lsl 0) m).symm
  case cmn => exact (core.runArm_alu word .cmn d.wide 0 (.shiftedImmediate s.wide .lsl 0) m).symm
  case neg =>
    rw [runArm_alu, aluOperands_immediate]
    rfl
  case adc | sbc =>
    rw [runArm_alu]
    rfl
  all_goals
    rw [runArm_alu]
    exact congrArg (fun operands => ((), computed .mov d (m.cpu.isFlag .carry) (operands m)))
      (aluOperands_shiftedRegister 0 d s _ (m.cpu.isFlag .carry)).symm

end

/-! ## Transfers -/

theorem setLoaded_wide (d : LowRegister) (value : UInt32) :
    core.setLoaded d.wide value = putLow d value := if_neg (CpuState.wide_ne_pc d)

/-- A single transfer of a low register whose offset is added first. -/
theorem executeTransfer_wide (op : Thumb.TransferOp) (n : Register) (d : LowRegister)
    (offset : Arm.Offset) :
    core.executeTransfer n d.wide offset op.mode = (do
      let distance ← view (transferOffset · offset)
      core.executeThumbTransfer op d ((← reg n) + distance)) := by
  unfold executeTransfer transferData executeThumbTransfer
  cases op <;>
    simp only [Thumb.TransferOp.mode, Thumb.TransferOp.kind, setReg_wide, setLoaded_wide,
      lateReg_wide] <;>
    rfl

/-- An offset in a register is the register, whatever form it takes. -/
theorem transferOffset_register (op : Thumb.TransferOp) (o : LowRegister) :
    (transferOffset · (op.offset o.wide)) = fun s => s.low o := by
  cases op <;> rfl

/-! ## All instructions -/

/-- **A short instruction is executed as its long form.** -/
theorem runThumb_expansion {j : Thumb.Instruction} {i : Arm.Instruction}
    (h : j.expansion? = some i) (half : UInt16) (word : UInt32) :
    core.runThumb half j = core.runArm word i := by
  cases j with
  | shift op d s amount => exact core.executeShift_expansion word h
  | addSubtract subtract d s n =>
    cases h
    funext m
    rw [runArm_alu]
    cases subtract <;> rfl
  | immediate op d value => exact core.executeImmediate_expansion word h
  | alu op d s =>
    cases h
    exact core.executeThumbAlu_expansion word op d s
  | transferRegister op d b o =>
    cases h
    show _ = core.executeTransfer b.wide d.wide (op.offset o.wide) op.mode
    rw [executeTransfer_wide, transferOffset_register]
    rfl
  | transferImmediate op d b offset =>
    cases h
    show _ = core.executeTransfer b.wide d.wide (.immediate offset) op.mode
    rw [executeTransfer_wide]
    rfl
  | transferStack load d offset =>
    cases h
    show _ = core.executeTransfer Register.sp d.wide (.immediate offset) _
    rw [executeTransfer_wide]
    rfl
  | push list lr =>
    obtain ⟨-, rfl⟩ := Thumb.blockExpansion?_eq_some.mp h
    rfl
  | pop list pc =>
    cases pc with
    | true => cases h
    | false =>
      obtain ⟨-, rfl⟩ := Thumb.blockExpansion?_eq_some.mp h
      show core.blockTransfer Register.sp (list.toUInt16 ||| 0) (ascending true) = _
      rw [UInt16.or_zero]
      rfl
  | storeBlock b list =>
    obtain ⟨-, rfl⟩ := Thumb.blockExpansion?_eq_some.mp h
    rfl
  | loadBlock b list =>
    obtain ⟨-, rfl⟩ := Thumb.blockExpansion?_eq_some.mp h
    rfl
  | _ => cases h

end Core
end Handheld
