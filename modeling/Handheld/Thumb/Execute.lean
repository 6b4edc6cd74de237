import Handheld.Cpu.Arithmetic
import Handheld.Cpu.BlockTransfer
import Handheld.Cpu.Shifter
import Handheld.Thumb.Decode

/-!
# Execution of short instructions

One function per class of instruction, and `executeThumb`, which chooses among them. A short
instruction always sets the flags.
-/

namespace Handheld.Core

open Word MachineM Thumb

variable {σ : Type} (core : Core σ)

/-! ## Data processing -/

/-- Set the flags of a sum and return it. -/
def withSum (sum : Sum32) : MachineM σ UInt32 := do
  change fun s => { s with cpsr := Arithmetic.withSum s.cpsr sum }
  return sum.value

/-- Set the flags of a logical result, carry and overflow apart, and return it. -/
def withLogical (value : UInt32) : MachineM σ UInt32 := do
  change fun s => { s with cpsr := Arithmetic.withNZ s.cpsr value }
  return value

/-- Set the flags of a shift, overflow apart, and return its value. -/
def withShifted (shifted : Shifted) : MachineM σ UInt32 := do
  change fun s => { s with cpsr := Arithmetic.withNZC s.cpsr shifted.value shifted.carry }
  return shifted.value

/-- A shift by an amount, or a sum with a small number. -/
def executeShift (op : ShiftOp) (d s : LowRegister) (amount : UInt32) : MachineM σ Unit := do
  let a ← low s
  let carry ← view (·.isFlag .carry)
  let value ←
    match op with
    | .lsl => withShifted (Shifter.byImmediate .lsl a amount carry)
    | .lsr => withShifted (Shifter.byImmediate .lsr a amount carry)
    | .asr => withShifted (Shifter.byImmediate .asr a amount carry)
    | .add => withSum (Arithmetic.add a amount)
    | .sub => withSum (Arithmetic.sub a amount)
  putLow d value

/-- An operation with a byte. -/
def executeImmediate (op : ImmediateOp) (d : LowRegister) (value : UInt32) : MachineM σ Unit := do
  let a ← low d
  match op with
  | .mov => putLow d (← withLogical value)
  | .cmp => let _ ← withSum (Arithmetic.sub a value)
  | .add => putLow d (← withSum (Arithmetic.add a value))
  | .sub => putLow d (← withSum (Arithmetic.sub a value))

/-- A shift by a register, which takes an extra cycle. -/
def shiftByRegister (kind : ShiftKind) (a b : UInt32) (carry : Bool) : MachineM σ UInt32 := do
  idle
  withShifted (Shifter.byRegister kind a b carry)

/-- An operation on two registers. -/
def executeThumbAlu (op : AluOp) (d s : LowRegister) : MachineM σ Unit := do
  let a ← low d
  let b ← low s
  let carry ← view (·.isFlag .carry)
  let value ←
    match op with
    | .and | .tst => withLogical (a &&& b)
    | .eor => withLogical (a ^^^ b)
    | .lsl => shiftByRegister .lsl a b carry
    | .lsr => shiftByRegister .lsr a b carry
    | .asr => shiftByRegister .asr a b carry
    | .ror => shiftByRegister .ror a b carry
    | .adc => withSum (Arithmetic.addCarry a b carry)
    | .sbc => withSum (Arithmetic.subCarry a b carry)
    | .neg => withSum (Arithmetic.sub 0 b)
    | .cmp => withSum (Arithmetic.sub a b)
    | .cmn => withSum (Arithmetic.add a b)
    | .orr => withLogical (a ||| b)
    | .mul => do
      multiplyIdle a true
      let value ← withLogical (a * b)
      if !core.processor.isV5 then setFlag .carry false
      pure value
    | .bic => withLogical (a &&& ~~~b)
    | .mvn => withLogical (~~~b)
  if op.writes then putLow d value

/-! ## Transfers -/

/-- A single transfer. -/
def executeThumbTransfer (op : TransferOp) (d : LowRegister) (address : UInt32) :
    MachineM σ Unit := do
  let access := Access.nonSequential
  let loaded (value : MachineM σ UInt32) : MachineM σ Unit := do
    putLow d (← value)
    idle
  let stored (w : Width) : MachineM σ Unit := do
    core.store w address (← low d) access
    setAccess access
  match op with
  | .storeWord => stored .word
  | .storeHalf => stored .half
  | .storeByte => stored .byte
  | .loadSignedByte => loaded (core.loadSignedByte address access)
  | .loadWord => loaded (core.loadRotated address access)
  | .loadHalf => loaded (core.load .half address access)
  | .loadByte => loaded (core.load .byte address access)
  | .loadSignedHalf => loaded (core.loadSignedHalf address access)

/-- The block transfer of a load or store behind a base register. -/
def ascending (load : Bool) : BlockTransfer :=
  { load, pre := false, up := true, writeback := true, statusBit := false }

/-- The block transfer that stores below the stack pointer. -/
def pushing : BlockTransfer :=
  { load := false, pre := true, up := false, writeback := true, statusBit := false }

/-! ## Calls -/

/-- The second half of a call: jump relative to the upper part kept in the link register, and
leave the return address there. -/
def executeCall (offset : UInt32) (short : Bool) : MachineM σ Unit := do
  let target := (← reg Register.lr) + offset
  change fun s => s.setReg Register.lr ((s.pc - 2) ||| 1)
  if short then core.jump target
  else
    setFlag .thumb false
    core.jump (Address.alignDown target 4)

/-! ## All instructions -/

/-- Execute a decoded instruction. -/
def runThumb (inst : UInt16) : Instruction → MachineM σ Unit
  | .unknown => core.skipUnknown inst.toUInt32
  | .shift op d s amount => executeShift op d s amount
  | .addSubtract subtract d s n => do
    let a ← low s
    let b ← low n
    putLow d (← withSum (if subtract then Arithmetic.sub a b else Arithmetic.add a b))
  | .immediate op d value => executeImmediate op d value
  | .alu op d s => core.executeThumbAlu op d s
  | .highAdd s d => do core.setReg d ((← reg d) + (← reg s))
  | .highCompare s d => do let _ ← withSum (Arithmetic.sub (← reg d) (← reg s))
  | .highMove s d => do core.setReg d (← reg s)
  | .exchange s link => do
    let target ← reg s
    if link then change fun s => s.setReg Register.lr ((s.pc - 2) ||| 1)
    core.exchange target
  | .loadLiteral d offset => do
    let address ← view fun s => s.wordPc + offset
    putLow d (← core.load .word address Access.nonSequential)
    idle
  | .transferRegister op d b o => do core.executeThumbTransfer op d ((← low b) + (← low o))
  | .transferImmediate op d b offset => do core.executeThumbTransfer op d ((← low b) + offset)
  | .transferStack load d offset => do
    core.executeThumbTransfer (if load then .loadWord else .storeWord) d
      ((← reg Register.sp) + offset)
  | .relativeAddress sp d offset => do
    putLow d ((← view fun s => if sp then s.reg Register.sp else s.wordPc) + offset)
  | .moveStack offset => do putReg Register.sp (Address.displace (← reg Register.sp) offset)
  | .push list lr =>
    core.blockTransfer Register.sp (list.toUInt16 ||| (if lr then 0x4000 else 0)) pushing
  | .pop list pc =>
    core.blockTransfer Register.sp (list.toUInt16 ||| (if pc then 0x8000 else 0))
      (ascending true)
  | .storeBlock b list => core.blockTransfer b.wide list.toUInt16 (ascending false)
  | .loadBlock b list => core.blockTransfer b.wide list.toUInt16 (ascending true)
  | .branchIf condition offset => do
    if ← view (·.holds condition) then core.jumpBy offset
  | .softwareInterrupt comment => core.softwareInterrupt comment
  | .branch offset => core.jumpBy offset
  | .prepareCall offset => change fun s => s.setReg Register.lr (Address.displace s.pc offset)
  | .call offset short => core.executeCall offset short

/-- Execute a halfword. -/
def executeThumb (inst : UInt16) : MachineM σ Unit :=
  core.runThumb inst (decode core.processor.isV5 inst)

end Handheld.Core
