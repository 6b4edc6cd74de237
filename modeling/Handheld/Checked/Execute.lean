import Handheld.Arm.Execute
import Handheld.Checked.Arithmetic
import Handheld.Checked.Core
import Handheld.Checked.Decode
import Handheld.Thumb.Execute

/-!
# Execution with checked ranges

The instructions of both sets on a core that stops where a result leaves its range, up to
`executeArmChecked` and `executeThumbChecked`, which decode an opcode and execute it.
-/

namespace Handheld.Core

open Word MachineM CheckedM

variable {σ : Type} (core : Core σ)

/-! ## Data processing -/

section
open Arm

/-- The first operand, the second one, and the carry of the shifter. -/
def aluOperandsChecked (n : Register) (carry : Bool) :
    Operand → CheckedM σ (UInt32 × Shifted)
  | .immediate value rotate => do
    let b := rotateRight value rotate
    let top ← Checked.isBit b 31
    return (← run (reg n), ⟨b, if rotate = 0 then carry else top⟩)
  | .shiftedImmediate m shift amount => do
    let a ← run (reg n)
    return (a, ← Shifter.byImmediateChecked shift (← run (reg m)) amount carry)
  | .shiftedRegister m shift amount => do
    run idle
    let a ← run (view (·.lateReg n))
    let b ← run (view (·.lateReg m))
    return (a, ← Shifter.byRegisterChecked shift b (← run (reg amount)) carry)

/-- The result of an operation and, for an arithmetic one, its sum with all flags. -/
def aluResultChecked (op : AluOp) (a b : UInt32) (carry : Bool) : Checked (UInt32 ⊕ Sum32) :=
  match op with
  | .add | .cmn => return .inr (← Arithmetic.addChecked a b)
  | .adc => return .inr (← Arithmetic.addCarryChecked a b carry)
  | .sbc => return .inr (← Arithmetic.subCarryChecked a b carry)
  | .rsc => return .inr (← Arithmetic.subCarryChecked b a carry)
  | _ => return aluResult op a b carry

/-- The value of a result, and the status after it. -/
def aluOutcomeChecked (result : UInt32 ⊕ Sum32) (shifterCarry : Bool) (status : UInt32) :
    Checked (UInt32 × UInt32) :=
  match result with
  | .inl value => return (value, Arithmetic.withNZC status value shifterCarry)
  | .inr sum => return (sum.value, ← Arithmetic.withSumChecked status sum)

/-- A data-processing instruction. -/
def executeAluChecked (op : AluOp) (setFlags : Bool) (n d : Register) (operand : Operand) :
    CheckedM σ Unit := do
  let carry ← evaluate (·.isFlagChecked .carry)
  let (a, b) ← aluOperandsChecked n carry operand
  let result ← aluResultChecked op a b.value carry
  let (value, status) ← evaluate fun s => aluOutcomeChecked result b.carry s.cpsr
  if setFlags then
    run (change ({ · with cpsr := status }))
    if d = Register.pc then
      alter fun s =>
        if s.mode.hasSavedStatus then s.setCpsrChecked s.savedStatus else return s
  if op.writes then core.setRegChecked d value

/-! ## Multiplication -/

/-- A multiplication of words. -/
def executeMultiplyChecked (op : MulOp) (setFlags : Bool) (d n s m : Register) :
    CheckedM σ Unit := do
  let a ← run (reg m)
  let b ← run (reg s)
  let low ← run (reg n)
  if op == .mul || op == .mla then
    if op == .mla then run (tick 1)
    let value := if op == .mla then a * b + low else a * b
    if setFlags then run (change fun s => { s with cpsr := Arithmetic.withNZ s.cpsr value })
    core.setRegChecked d value
  else
    let value := longProduct op a b (Arithmetic.long (← run (reg d)) low)
    run (tick (if op.accumulates then 2 else 1))
    if setFlags then
      let negative ← Checked.isBit value 63
      alter (·.setFlagChecked .negative negative)
      alter (·.setFlagChecked .zero (value == 0))
    core.setRegChecked n value.toUInt32
    core.setRegChecked d (Arithmetic.highWord value)
  if setFlags && !core.processor.isV5 then alter (·.setFlagChecked .carry false)
  run (multiplyIdle b (!op.isUnsigned))

/-- Set the saturation flag if something went out of range. -/
def markSaturatedChecked (out : Bool) : CheckedM σ Unit := do
  if out then alter (·.setFlagChecked .saturated true)

/-- A multiplication of signed halfwords. -/
def executeHalfMultiplyChecked (op : HalfMulOp) (d n s m : Register) (xTop yTop : Bool) :
    CheckedM σ Unit := do
  let a ← run (reg m)
  let accumulator ← run (reg n)
  let x := Arithmetic.signedHalf a xTop
  let y := Arithmetic.signedHalf (← run (reg s)) yTop
  match op with
  | .smla =>
    let sum := Arithmetic.add (← Arithmetic.halfProductChecked x y) accumulator
    markSaturatedChecked sum.overflow
    core.setRegChecked d sum.value
  | .smlaw =>
    let wide := ((← Arithmetic.mixedProductChecked a y) >>> 16).toInt32.toUInt32
    let sum := Arithmetic.add wide accumulator
    markSaturatedChecked sum.overflow
    core.setRegChecked d sum.value
  | .smulw =>
    let wide := ((← Arithmetic.mixedProductChecked a y) >>> 16).toInt32.toUInt32
    core.setRegChecked d wide
  | .smlal =>
    let product := (← Arithmetic.halfProductChecked x y).toInt32.toInt64.toUInt64
    let value := Arithmetic.long (← run (reg d)) accumulator + product
    run (tick 1)
    core.setRegChecked n value.toUInt32
    core.setRegChecked d (Arithmetic.highWord value)
  | .smul => core.setRegChecked d (← Arithmetic.halfProductChecked x y)

/-- A sum or difference that stays at the ends of the range. -/
def executeSaturatingChecked (op : SaturatingOp) (d n m : Register) : CheckedM σ Unit := do
  let a ← run (reg m)
  let b ← run (reg n)
  let (b, out) :=
    match op with
    | .doubleAdd | .doubleSub => Arithmetic.saturatingAdd b b
    | .add | .sub => (b, false)
  let (value, out') :=
    match op with
    | .add | .doubleAdd => Arithmetic.saturatingAdd a b
    | .sub | .doubleSub => Arithmetic.saturatingSub a b
  markSaturatedChecked (out || out')
  core.setRegChecked d value

/-! ## Status registers -/

/-- Write a status register. -/
def executeWriteStatusChecked (source : StatusSource) (flags control saved : Bool) :
    CheckedM σ Unit := do
  let value ←
    match source with
    | .immediate value => pure value
    | .register m => run (reg m)
  alter fun s => do
    let old := if saved then s.savedStatus else s.cpsr
    let new := mergeStatus old value flags (control && s.mode != .user)
    if saved then return s.setSavedStatus new
    else s.setCpsrChecked (← Checked.setBit new 5 false)

/-! ## Transfers -/

/-- The offset of a single transfer. -/
def transferOffsetChecked (s : CpuState) : Offset → Checked UInt32
  | .immediate value => return value
  | .register m => return s.reg m
  | .shiftedRegister base shift amount => do
    let carry ← s.isFlagChecked .carry
    return (← Shifter.byImmediateChecked shift (s.reg base) amount carry).value

/-- Move the data of a single transfer. The second register of a doubleword has the next
number. -/
def transferDataChecked (kind : TransferKind) (d : Register) (address : UInt32) :
    CheckedM σ Unit := do
  let access := Access.nonSequential
  match kind with
  | .loadByte => core.setRegChecked d (← core.loadChecked .byte address access)
  | .loadSignedByte => core.setRegChecked d (← core.loadSignedByteChecked address access)
  | .loadHalf => core.setRegChecked d (← core.loadChecked .half address access)
  | .loadSignedHalf => core.setRegChecked d (← core.loadSignedHalfChecked address access)
  | .loadWord => core.setLoadedChecked d (← core.loadRotatedChecked address access)
  | .loadDouble =>
    let low ← core.loadChecked .word address access
    let high ← core.loadChecked .word (address + 4) Access.sequential
    core.setRegChecked d low
    core.setRegChecked (← Checked.index 16 (d.val + 1)) high
  | .storeByte => run do core.store .byte address (← view (·.lateReg d)) access
  | .storeHalf => run do core.store .half address (← view (·.lateReg d)) access
  | .storeWord => run do core.store .word address (← view (·.lateReg d)) access
  | .storeDouble =>
    let second ← Checked.index 16 (d.val + 1)
    let low ← run (view (·.lateReg d))
    let high ← run (view (·.lateReg second))
    run (core.store .word address low access)
    run (core.store .word (address + 4) high Access.sequential)

/-- A single transfer. -/
def executeTransferChecked (n d : Register) (offset : Offset) (mode : TransferMode) :
    CheckedM σ Unit := do
  let offset ← evaluate (transferOffsetChecked · offset)
  let base ← run (reg n)
  let moved := Address.move base offset mode.up
  core.transferDataChecked mode.kind d (if mode.pre then moved else base)
  if mode.writeback && !loadsBase mode.kind n d then core.setRegChecked n moved
  run (if mode.kind.isLoad then idle else setAccess Access.nonSequential)

/-- Exchange a register with memory. -/
def executeSwapChecked (n d m : Register) (byte : Bool) : CheckedM σ Unit := do
  let address ← run (reg n)
  let source ← run (reg m)
  let access := Access.nonSequential
  let value ←
    if byte then core.loadChecked .byte address access else core.loadRotatedChecked address access
  run (core.store (if byte then .byte else .word) address source access)
  core.setRegChecked d value
  run idle

/-! ## Coprocessors -/

/-- Read a coprocessor register. -/
def executeReadCoprocessorChecked (inst : UInt32) (c : Coprocessor) : CheckedM σ Unit := do
  if c.pn != 15 then core.skipUnknownChecked inst
  else
    let value ← run (onBoard (core.controlRead c.cn c.cm c.cp))
    if c.d = Register.pc then
      run (change fun s => { s with cpsr := (s.cpsr &&& 0x0FFFFFFF) ||| (value &&& 0xF0000000) })
    else core.setRegChecked c.d value

/-- Write a coprocessor register. -/
def executeWriteCoprocessorChecked (inst : UInt32) (c : Coprocessor) : CheckedM σ Unit := do
  if c.pn != 15 then core.skipUnknownChecked inst
  else
    let value ← run (view (·.lateReg c.d))
    run (onBoard (core.controlWrite c.cn c.cm c.cp value))

/-! ## Long instructions -/

/-- Execute a decoded long instruction. -/
def runArmChecked (inst : UInt32) : Instruction → CheckedM σ Unit
  | .unknown => core.skipUnknownChecked inst
  | .softwareInterrupt comment => core.softwareInterruptChecked comment
  | .branch offset link => do
    if link then run (change fun s => s.setReg Register.lr (s.pc - 4))
    core.jumpByChecked offset
  | .callShort offset => do
    let target ← run (view fun s => Address.displace s.pc offset)
    alter fun s => (s.setReg Register.lr (s.pc - 4)).setFlagChecked .thumb true
    core.jumpChecked target
  | .exchange m => do core.exchangeChecked (← run (reg m))
  | .callExchange m => do
    let target ← run (reg m)
    run (change fun s => s.setReg Register.lr (s.pc - 4))
    core.exchangeChecked target
  | .alu op setFlags n d operand => core.executeAluChecked op setFlags n d operand
  | .multiply op setFlags d n s m => core.executeMultiplyChecked op setFlags d n s m
  | .halfMultiply op d n s m xTop yTop => core.executeHalfMultiplyChecked op d n s m xTop yTop
  | .leadingZeros d m => do core.setRegChecked d (leadingZeros (← run (reg m)))
  | .saturating op d n m => core.executeSaturatingChecked op d n m
  | .readStatus d saved => do
    let status ← run (view fun s => if saved then s.savedStatus else s.cpsr)
    core.setRegChecked d (← Checked.setBit status 4 true)
  | .writeStatus source flags control saved =>
    executeWriteStatusChecked source flags control saved
  | .transfer n d offset mode => core.executeTransferChecked n d offset mode
  | .blockTransfer n list statusBit mode =>
    core.blockTransferChecked n list
      { load := mode.load, pre := mode.pre, up := mode.up, writeback := mode.writeback, statusBit }
  | .swap n d m byte => core.executeSwapChecked n d m byte
  | .readCoprocessor c => core.executeReadCoprocessorChecked inst c
  | .writeCoprocessor c => core.executeWriteCoprocessorChecked inst c
  | .preload => return

/-- Execute a word, if its condition holds. -/
def executeArmChecked (inst : UInt32) : CheckedM σ Unit := do
  let cc ← conditionChecked inst
  let isV5 := core.processor.isV5
  if (isV5 && cc == 15) || (← evaluate (·.holdsChecked cc)) then
    core.runArmChecked inst (← decodeChecked isV5 inst)

end

/-! ## Short instructions -/

section
open Thumb

/-- Set the flags of a sum and return it. -/
def withSumChecked (sum : Sum32) : CheckedM σ UInt32 := do
  alter fun s => do return { s with cpsr := ← Arithmetic.withSumChecked s.cpsr sum }
  return sum.value

/-- A shift by an amount, or a sum with a small number. -/
def executeShiftChecked (op : ShiftOp) (d s : LowRegister) (amount : UInt32) :
    CheckedM σ Unit := do
  let a ← run (low s)
  let carry ← evaluate (·.isFlagChecked .carry)
  let value ←
    match op with
    | .lsl => do run (withShifted (← Shifter.byImmediateChecked .lsl a amount carry))
    | .lsr => do run (withShifted (← Shifter.byImmediateChecked .lsr a amount carry))
    | .asr => do run (withShifted (← Shifter.byImmediateChecked .asr a amount carry))
    | .add => do withSumChecked (← Arithmetic.addChecked a amount)
    | .sub => withSumChecked (Arithmetic.sub a amount)
  run (putLow d value)

/-- An operation with a byte. -/
def executeImmediateChecked (op : ImmediateOp) (d : LowRegister) (value : UInt32) :
    CheckedM σ Unit := do
  let a ← run (low d)
  match op with
  | .mov => run do putLow d (← withLogical value)
  | .cmp => let _ ← withSumChecked (Arithmetic.sub a value)
  | .add => run (putLow d (← withSumChecked (← Arithmetic.addChecked a value)))
  | .sub => run (putLow d (← withSumChecked (Arithmetic.sub a value)))

/-- A shift by a register, which takes an extra cycle. -/
def shiftByRegisterChecked (kind : ShiftKind) (a b : UInt32) (carry : Bool) :
    CheckedM σ UInt32 := do
  run idle
  run (withShifted (← Shifter.byRegisterChecked kind a b carry))

/-- An operation on two registers. -/
def executeThumbAluChecked (op : AluOp) (d s : LowRegister) : CheckedM σ Unit := do
  let a ← run (low d)
  let b ← run (low s)
  let carry ← evaluate (·.isFlagChecked .carry)
  let value ←
    match op with
    | .and | .tst => run (withLogical (a &&& b))
    | .eor => run (withLogical (a ^^^ b))
    | .lsl => shiftByRegisterChecked .lsl a b carry
    | .lsr => shiftByRegisterChecked .lsr a b carry
    | .asr => shiftByRegisterChecked .asr a b carry
    | .ror => shiftByRegisterChecked .ror a b carry
    | .adc => do withSumChecked (← Arithmetic.addCarryChecked a b carry)
    | .sbc => do withSumChecked (← Arithmetic.subCarryChecked a b carry)
    | .neg => withSumChecked (Arithmetic.sub 0 b)
    | .cmp => withSumChecked (Arithmetic.sub a b)
    | .cmn => do withSumChecked (← Arithmetic.addChecked a b)
    | .orr => run (withLogical (a ||| b))
    | .mul => do
      let value ← run do
        multiplyIdle a true
        withLogical (a * b)
      if !core.processor.isV5 then alter (·.setFlagChecked .carry false)
      pure value
    | .bic => run (withLogical (a &&& ~~~b))
    | .mvn => run (withLogical (~~~b))
  if op.writes then run (putLow d value)

/-- A single transfer. -/
def executeThumbTransferChecked (op : TransferOp) (d : LowRegister) (address : UInt32) :
    CheckedM σ Unit := do
  let access := Access.nonSequential
  let loaded (value : CheckedM σ UInt32) : CheckedM σ Unit := do
    run (putLow d (← value))
    run idle
  let stored (w : Width) : CheckedM σ Unit := run do
    core.store w address (← low d) access
    setAccess access
  match op with
  | .storeWord => stored .word
  | .storeHalf => stored .half
  | .storeByte => stored .byte
  | .loadSignedByte => loaded (core.loadSignedByteChecked address access)
  | .loadWord => loaded (core.loadRotatedChecked address access)
  | .loadHalf => loaded (core.loadChecked .half address access)
  | .loadByte => loaded (core.loadChecked .byte address access)
  | .loadSignedHalf => loaded (core.loadSignedHalfChecked address access)

/-- The second half of a call. -/
def executeCallChecked (offset : UInt32) (short : Bool) : CheckedM σ Unit := do
  let target := (← run (reg Register.lr)) + offset
  run (change fun s => s.setReg Register.lr ((s.pc - 2) ||| 1))
  if short then core.jumpChecked target
  else
    alter (·.setFlagChecked .thumb false)
    core.jumpChecked (← Address.alignDownChecked target 4)

/-- Execute a decoded short instruction. -/
def runThumbChecked (inst : UInt16) : Instruction → CheckedM σ Unit
  | .unknown => core.skipUnknownChecked inst.toUInt32
  | .shift op d s amount => executeShiftChecked op d s amount
  | .addSubtract subtract d s n => do
    let a ← run (low s)
    let b ← run (low n)
    let sum ← if subtract then pure (Arithmetic.sub a b) else liftM (Arithmetic.addChecked a b)
    run (putLow d (← withSumChecked sum))
  | .immediate op d value => executeImmediateChecked op d value
  | .alu op d s => core.executeThumbAluChecked op d s
  | .highAdd s d => do core.setRegChecked d ((← run (reg d)) + (← run (reg s)))
  | .highCompare s d => do
    let _ ← withSumChecked (Arithmetic.sub (← run (reg d)) (← run (reg s)))
  | .highMove s d => do core.setRegChecked d (← run (reg s))
  | .exchange s link => do
    let target ← run (reg s)
    if link then run (change fun s => s.setReg Register.lr ((s.pc - 2) ||| 1))
    core.exchangeChecked target
  | .loadLiteral d offset => do
    let address ← run (view fun s => s.wordPc + offset)
    run (putLow d (← core.loadChecked .word address Access.nonSequential))
    run idle
  | .transferRegister op d b o => do
    core.executeThumbTransferChecked op d ((← run (low b)) + (← run (low o)))
  | .transferImmediate op d b offset => do
    core.executeThumbTransferChecked op d ((← run (low b)) + offset)
  | .transferStack load d offset => do
    core.executeThumbTransferChecked (if load then .loadWord else .storeWord) d
      ((← run (reg Register.sp)) + offset)
  | .relativeAddress sp d offset => run do
    putLow d ((← view fun s => if sp then s.reg Register.sp else s.wordPc) + offset)
  | .moveStack offset => run do
    putReg Register.sp (Address.displace (← reg Register.sp) offset)
  | .push list lr =>
    core.blockTransferChecked Register.sp (list.toUInt16 ||| (if lr then 0x4000 else 0)) pushing
  | .pop list pc =>
    core.blockTransferChecked Register.sp (list.toUInt16 ||| (if pc then 0x8000 else 0))
      (ascending true)
  | .storeBlock b list => core.blockTransferChecked b.wide list.toUInt16 (ascending false)
  | .loadBlock b list => core.blockTransferChecked b.wide list.toUInt16 (ascending true)
  | .branchIf condition offset => do
    if ← evaluate (·.holdsChecked condition) then core.jumpByChecked offset
  | .softwareInterrupt comment => core.softwareInterruptChecked comment
  | .branch offset => core.jumpByChecked offset
  | .prepareCall offset =>
    run (change fun s => s.setReg Register.lr (Address.displace s.pc offset))
  | .call offset short => core.executeCallChecked offset short

/-- Execute a halfword. -/
def executeThumbChecked (inst : UInt16) : CheckedM σ Unit := do
  core.runThumbChecked inst (← decodeChecked core.processor.isV5 inst)

end

/-! ## One step -/

/-- Fetch an instruction and execute it. -/
def executeNextChecked : CheckedM σ Unit := do
  core.revalidateChecked
  let thumb ← evaluate (·.isFlagChecked .thumb)
  let inst ← run (core.fetch (if thumb then .half else .word))
  let executing ← evaluate (·.executingChecked)
  run do note (.executing core.processor thumb executing inst (← view (·.cpsr)))
  if thumb then core.executeThumbChecked inst.toUInt16 else core.executeArmChecked inst

/-- Wake up, if halted, and go on. -/
def stepBodyChecked : CheckedM σ Unit := do
  if ← run (view (·.isHalted)) then
    if !(← run (ask fun system => (core.interrupts system).isPending)) then return
    run do
      note (.wokeUp core.processor)
      change ({ · with isHalted := false })
  if !(← core.takeInterruptChecked) then core.executeNextChecked

/-- Run one step on a board. Returns the cycles it took, unless a result left its range. -/
def stepChecked (board : Board σ) : Checked (UInt64 × Board σ) := do
  let (_, machine) ← core.stepBodyChecked { toBoard := board }
  return (machine.cycles, machine.toBoard)

end Handheld.Core
