import Handheld.Arm.Decode
import Handheld.Cpu.Arithmetic
import Handheld.Cpu.BlockTransfer

/-!
# Execution of long instructions

One function per class of instruction, and `executeArm`, which checks the condition and chooses
among them.
-/

namespace Handheld.Core

open Word MachineM Arm

variable {σ : Type} (core : Core σ)

/-! ## Data processing -/

/-- The first operand, the second one, and the carry of the shifter. A shift by a register reads
its amount in an extra cycle, in which the program counter moves on. -/
def aluOperands (n : Register) (carry : Bool) : Operand → MachineM σ (UInt32 × Shifted)
  | .immediate value rotate => do
    let b := rotateRight value rotate
    return (← reg n, ⟨b, if rotate = 0 then carry else isBit b 31⟩)
  | .shiftedImmediate m shift amount => do
    return (← reg n, Shifter.byImmediate shift (← reg m) amount carry)
  | .shiftedRegister m shift amount => do
    idle
    let a ← view (·.lateReg n)
    let b ← view (·.lateReg m)
    return (a, Shifter.byRegister shift b (← reg amount) carry)

/-- The result of an operation and, for an arithmetic one, its sum with all flags. -/
def aluResult (op : AluOp) (a b : UInt32) (carry : Bool) : UInt32 ⊕ Sum32 :=
  match op with
  | .and | .tst => .inl (a &&& b)
  | .eor | .teq => .inl (a ^^^ b)
  | .orr => .inl (a ||| b)
  | .mov => .inl b
  | .bic => .inl (a &&& ~~~b)
  | .mvn => .inl (~~~b)
  | .sub | .cmp => .inr (Arithmetic.sub a b)
  | .rsb => .inr (Arithmetic.sub b a)
  | .add | .cmn => .inr (Arithmetic.add a b)
  | .adc => .inr (Arithmetic.addCarry a b carry)
  | .sbc => .inr (Arithmetic.subCarry a b carry)
  | .rsc => .inr (Arithmetic.subCarry b a carry)

/-- The value of a result, and the status after it: a logical operation takes the carry from the
shifter and keeps the overflow flag. -/
def aluOutcome (result : UInt32 ⊕ Sum32) (shifterCarry : Bool) (status : UInt32) :
    UInt32 × UInt32 :=
  match result with
  | .inl value => (value, Arithmetic.withNZC status value shifterCarry)
  | .inr sum => (sum.value, Arithmetic.withSum status sum)

/-- A data-processing instruction. One that sets the flags and names the program counter returns
from an exception: the status is restored before the jump, so that the jump lands in the right
instruction set. -/
def executeAlu (op : AluOp) (setFlags : Bool) (n d : Register) (operand : Operand) :
    MachineM σ Unit := do
  let carry ← view (·.isFlag .carry)
  let (a, b) ← aluOperands n carry operand
  let (value, status) ← view fun s => aluOutcome (aluResult op a b.value carry) b.carry s.cpsr
  if setFlags then
    change ({ · with cpsr := status })
    if d = Register.pc then
      change fun s => if s.mode.hasSavedStatus then s.setCpsr s.savedStatus else s
  if op.writes then core.setReg d value

/-! ## Multiplication -/

/-- The long product of an operation, with the old value of the destination added where the
operation accumulates. -/
def longProduct (op : MulOp) (a b : UInt32) (old : UInt64) : UInt64 :=
  let product :=
    if op.isUnsigned then Arithmetic.unsignedProduct a b
    else (Arithmetic.signedProduct a b).toUInt64
  if op.accumulates then product + old else product

/-- A multiplication of words. ARMv4 leaves an unpredictable carry, which reads as cleared. -/
def executeMultiply (op : MulOp) (setFlags : Bool) (d n s m : Register) : MachineM σ Unit := do
  let a ← reg m
  let b ← reg s
  let low ← reg n
  if op == .mul || op == .mla then
    if op == .mla then tick 1
    let value := if op == .mla then a * b + low else a * b
    if setFlags then change fun s => { s with cpsr := Arithmetic.withNZ s.cpsr value }
    core.setReg d value
  else
    let value := longProduct op a b (Arithmetic.long (← reg d) low)
    tick (if op.accumulates then 2 else 1)
    if setFlags then
      setFlag .negative (isBit value 63)
      setFlag .zero (value == 0)
    core.setReg n value.toUInt32
    core.setReg d (Arithmetic.highWord value)
  if setFlags && !core.processor.isV5 then setFlag .carry false
  multiplyIdle b (!op.isUnsigned)

/-- Set the saturation flag if something went out of range. It is never cleared here. -/
def markSaturated (out : Bool) : MachineM σ Unit := do
  if out then setFlag .saturated true

/-- A multiplication of signed halfwords. -/
def executeHalfMultiply (op : HalfMulOp) (d n s m : Register) (xTop yTop : Bool) :
    MachineM σ Unit := do
  let a ← reg m
  let accumulator ← reg n
  let x := Arithmetic.signedHalf a xTop
  let y := Arithmetic.signedHalf (← reg s) yTop
  -- The upper two thirds of the product of a word and a half.
  let wide := (Arithmetic.signedProduct a y >>> 16).toInt32.toUInt32
  match op with
  | .smla =>
    let sum := Arithmetic.add (x * y) accumulator
    markSaturated sum.overflow
    core.setReg d sum.value
  | .smlaw =>
    let sum := Arithmetic.add wide accumulator
    markSaturated sum.overflow
    core.setReg d sum.value
  | .smulw => core.setReg d wide
  | .smlal =>
    let product := (x * y).toInt32.toInt64.toUInt64
    let value := Arithmetic.long (← reg d) accumulator + product
    tick 1
    core.setReg n value.toUInt32
    core.setReg d (Arithmetic.highWord value)
  | .smul => core.setReg d (x * y)

/-- A sum or difference that stays at the ends of the range, the second operand doubled first
where the operation says so. -/
def executeSaturating (op : SaturatingOp) (d n m : Register) : MachineM σ Unit := do
  let a ← reg m
  let b ← reg n
  let (b, out) :=
    match op with
    | .doubleAdd | .doubleSub => Arithmetic.saturatingAdd b b
    | .add | .sub => (b, false)
  let (value, out') :=
    match op with
    | .add | .doubleAdd => Arithmetic.saturatingAdd a b
    | .sub | .doubleSub => Arithmetic.saturatingSub a b
  markSaturated (out || out')
  core.setReg d value

/-! ## Status registers -/

/-- A status with the top byte and the bottom byte taken from a source, as far as wanted. -/
def mergeStatus (old source : UInt32) (flags control : Bool) : UInt32 :=
  let new := if flags then (old &&& 0x00FFFFFF) ||| (source &&& 0xFF000000) else old
  if control then (new &&& 0xFFFFFF00) ||| (source &&& 0xFF) else new

/-- Write a status register. User mode reaches only the flags, and the instruction set cannot be
changed this way. -/
def executeWriteStatus (source : StatusSource) (flags control saved : Bool) : MachineM σ Unit := do
  let value ←
    match source with
    | .immediate value => pure value
    | .register m => reg m
  change fun s =>
    let old := if saved then s.savedStatus else s.cpsr
    let new := mergeStatus old value flags (control && s.mode != .user)
    if saved then s.setSavedStatus new else s.setCpsr (setBit new 5 false)

/-! ## Transfers -/

/-- The offset of a single transfer. -/
def transferOffset (s : CpuState) : Offset → UInt32
  | .immediate value => value
  | .register m => s.reg m
  | .shiftedRegister base shift amount =>
    (Shifter.byImmediate shift (s.reg base) amount (s.isFlag .carry)).value

/-- Move the data of a single transfer. -/
def transferData (kind : TransferKind) (d : Register) (address : UInt32) : MachineM σ Unit := do
  let access := Access.nonSequential
  match kind with
  | .loadByte => core.setReg d (← core.load .byte address access)
  | .loadSignedByte => core.setReg d (← core.loadSignedByte address access)
  | .loadHalf => core.setReg d (← core.load .half address access)
  | .loadSignedHalf => core.setReg d (← core.loadSignedHalf address access)
  | .loadWord => core.setLoaded d (← core.loadRotated address access)
  | .loadDouble =>
    let low ← core.load .word address access
    let high ← core.load .word (address + 4) Access.sequential
    core.setReg d low
    core.setReg (d + 1) high
  | .storeByte => core.store .byte address (← view (·.lateReg d)) access
  | .storeHalf => core.store .half address (← view (·.lateReg d)) access
  | .storeWord => core.store .word address (← view (·.lateReg d)) access
  | .storeDouble =>
    let low ← view (·.lateReg d)
    let high ← view (·.lateReg (d + 1))
    core.store .word address low access
    core.store .word (address + 4) high Access.sequential

/-- Whether a transfer loads its own base register; the loaded value then stays. -/
def loadsBase (kind : TransferKind) (n d : Register) : Bool :=
  kind.isLoad && (n == d || (kind == .loadDouble && n == d + 1))

/-- A single transfer. -/
def executeTransfer (n d : Register) (offset : Offset) (mode : TransferMode) :
    MachineM σ Unit := do
  let offset ← view (transferOffset · offset)
  let base ← reg n
  let moved := Address.move base offset mode.up
  core.transferData mode.kind d (if mode.pre then moved else base)
  if mode.writeback && !loadsBase mode.kind n d then core.setReg n moved
  if mode.kind.isLoad then idle else setAccess Access.nonSequential

/-- Exchange a register with memory. -/
def executeSwap (n d m : Register) (byte : Bool) : MachineM σ Unit := do
  let address ← reg n
  let source ← reg m
  let access := Access.nonSequential
  let value ← if byte then core.load .byte address access else core.loadRotated address access
  core.store (if byte then .byte else .word) address source access
  core.setReg d value
  idle

/-! ## Coprocessors -/

/-- Read a coprocessor register. In place of the program counter the flags are written. -/
def executeReadCoprocessor (inst : UInt32) (c : Coprocessor) : MachineM σ Unit := do
  if c.pn != 15 then core.skipUnknown inst
  else
    let value ← onBoard (core.controlRead c.cn c.cm c.cp)
    if c.d = Register.pc then
      change fun s => { s with cpsr := (s.cpsr &&& 0x0FFFFFFF) ||| (value &&& 0xF0000000) }
    else core.setReg c.d value

/-- Write a coprocessor register. -/
def executeWriteCoprocessor (inst : UInt32) (c : Coprocessor) : MachineM σ Unit := do
  if c.pn != 15 then core.skipUnknown inst
  else
    let value ← view (·.lateReg c.d)
    onBoard (core.controlWrite c.cn c.cm c.cp value)

/-! ## All instructions -/

/-- Execute a decoded instruction. -/
def runArm (inst : UInt32) : Instruction → MachineM σ Unit
  | .unknown => core.skipUnknown inst
  | .softwareInterrupt comment => core.softwareInterrupt comment
  | .branch offset link => do
    if link then change fun s => s.setReg Register.lr (s.pc - 4)
    core.jumpBy offset
  | .callShort offset => do
    let target ← view fun s => Address.displace s.pc offset
    change fun s => (s.setReg Register.lr (s.pc - 4)).setFlag .thumb true
    core.jump target
  | .exchange m => do core.exchange (← reg m)
  | .callExchange m => do
    let target ← reg m
    change fun s => s.setReg Register.lr (s.pc - 4)
    core.exchange target
  | .alu op setFlags n d operand => core.executeAlu op setFlags n d operand
  | .multiply op setFlags d n s m => core.executeMultiply op setFlags d n s m
  | .halfMultiply op d n s m xTop yTop => core.executeHalfMultiply op d n s m xTop yTop
  | .leadingZeros d m => do core.setReg d (leadingZeros (← reg m))
  | .saturating op d n m => core.executeSaturating op d n m
  | .readStatus d saved => do
    let status ← view fun s => if saved then s.savedStatus else s.cpsr
    core.setReg d (setBit status 4 true)
  | .writeStatus source flags control saved => executeWriteStatus source flags control saved
  | .transfer n d offset mode => core.executeTransfer n d offset mode
  | .blockTransfer n list statusBit mode =>
    core.blockTransfer n list
      { load := mode.load, pre := mode.pre, up := mode.up, writeback := mode.writeback, statusBit }
  | .swap n d m byte => core.executeSwap n d m byte
  | .readCoprocessor c => core.executeReadCoprocessor inst c
  | .writeCoprocessor c => core.executeWriteCoprocessor inst c
  | .preload => return

/-- Execute a word, if its condition holds. On ARMv5 the condition that never holds marks
unconditional instructions. -/
def executeArm (inst : UInt32) : MachineM σ Unit := do
  let cc := condition inst
  let isV5 := core.processor.isV5
  if (isV5 && cc == 15) || (← view (·.holds cc)) then core.runArm inst (decode isV5 inst)

end Handheld.Core
