import Handheld.Arm.Decode
import Handheld.Checked
import Handheld.Thumb.Decode

/-!
# Decoding with checked ranges

The decoders of both instruction sets, with every field taken out of an opcode by operators that
check their ranges. The number of a register is checked where it is read from the opcode. The
charts of classes compare masked opcodes and calculate nothing.
-/

namespace Handheld

open Word

namespace Arm

/-! ## Fields of long instructions -/

/-- The condition in the top four bits. -/
def conditionChecked (inst : UInt32) : Checked (Fin 16) := Checked.index 16 (inst >>> 28).toNat

/-- The register in the four bits from position `start` on. -/
def regChecked (inst : UInt32) (start : Nat) : Checked Register :=
  Checked.index 16 (bits inst start 4).toNat

/-- The bits from position `first` to position `last`. -/
def fieldChecked (inst first last : UInt32) : Checked UInt32 := do
  let count ← Checked.add (← Checked.sub last first) 1
  let mask ← Checked.sub (← Checked.shiftLeft 1 count.toNat) 1
  return (← Checked.shiftRight inst first.toNat) &&& mask

/-- The offset of a branch in bytes. -/
def branchOffsetChecked (inst : UInt32) : Checked Int32 := Checked.mulSigned (signExtend24 inst) 4

/-- The offset of a call into the short instruction set: bit 24 adds a halfword. -/
def callOffsetChecked (inst : UInt32) : Checked Int32 := do
  Checked.addSigned (branchOffset inst) (if ← Checked.isBit inst 24 then 2 else 0)

/-- The kind of a shift. -/
def shiftKindChecked (inst : UInt32) : Checked ShiftKind := do
  match ← fieldChecked inst 5 6 with
  | 0 => return .lsl
  | 1 => return .lsr
  | 2 => return .asr
  | _ => return .ror

/-- The data-processing operation. -/
def aluOpChecked (inst : UInt32) : Checked AluOp := do
  return AluOp.all[Fin.ofNat 16 (← fieldChecked inst 21 24).toNat]

/-- A data-processing instruction with the given operand. -/
def aluChecked (inst : UInt32) (operand : Operand) : Checked Instruction := do
  return .alu (← aluOpChecked inst) (← Checked.isBit inst 20) (← regChecked inst 16)
    (← regChecked inst 12) operand

/-- A multiplication. -/
def multiplyChecked (inst : UInt32) (op : MulOp) : Checked Instruction := do
  return .multiply op (← Checked.isBit inst 20) (← regChecked inst 16) (← regChecked inst 12)
    (← regChecked inst 8) (← regChecked inst 0)

/-- The addressing of a single transfer. -/
def transferModeChecked (inst : UInt32) (kind : TransferKind) : Checked TransferMode := do
  let pre ← Checked.isBit inst 24
  return { pre, up := ← Checked.isBit inst 23, kind,
           writeback := (← Checked.isBit inst 21) || !pre }

/-- An offset by a register that is shifted. -/
def shiftedOffsetChecked (inst : UInt32) : Checked Offset := do
  return .shiftedRegister (← regChecked inst 0) (← shiftKindChecked inst)
    (← fieldChecked inst 7 11)

/-- The offset of a halfword, doubleword or signed transfer. -/
def extraOffsetChecked (inst : UInt32) : Checked Offset := do
  if ← Checked.isBit inst 22 then return .immediate ((bits inst 8 4 <<< 4) ||| bits inst 0 4)
  else return .register (← regChecked inst 0)

/-- What a halfword, doubleword or signed transfer moves. -/
def extraKindChecked (isV5 : Bool) (inst : UInt32) : Checked (Option TransferKind) := do
  let double := isV5 && !(← Checked.isBit inst 12)
  match ← Checked.isBit inst 20, ← fieldChecked inst 5 6 with
  | true, 1 => return some .loadHalf
  | true, 2 => return some .loadSignedByte
  | true, 3 => return some .loadSignedHalf
  | false, 1 => return some .storeHalf
  | false, 2 => return if double then some .loadDouble else none
  | false, 3 => return if double then some .storeDouble else none
  | _, _ => return none

/-- The fields of a transfer to or from a coprocessor. -/
def coprocessorChecked (inst : UInt32) : Checked Coprocessor := do
  return { opc := ← fieldChecked inst 21 23
           cn := ← fieldChecked inst 16 19
           d := ← regChecked inst 12
           pn := ← fieldChecked inst 8 11
           cp := ← fieldChecked inst 5 7
           cm := ← fieldChecked inst 0 3 }

/-- A write to a status register. -/
def writeStatusChecked (inst : UInt32) (source : StatusSource) : Checked Instruction := do
  return .writeStatus source (← Checked.isBit inst 19) (← Checked.isBit inst 16)
    (← Checked.isBit inst 22)

/-! ## Long instructions -/

/-- An ARMv5 instruction whose condition bits are all set. -/
def decodeUnconditionalChecked (inst : UInt32) : Checked Instruction := do
  if (← fieldChecked inst 25 27) = 0b101 then return .callShort (← callOffsetChecked inst)
  else if inst &&& 0x0D70F000 = 0x0550F000 then return .preload
  else return .unknown

/-- The instruction of a word, read as a member of its class. -/
def decodeAsChecked (isV5 : Bool) (inst : UInt32) : Encoding → Checked Instruction
  | .branch => return .branch (← branchOffsetChecked inst) (← Checked.isBit inst 24)
  | .softwareInterrupt => return .softwareInterrupt (← fieldChecked inst 16 23).toUInt8
  | .readCoprocessor => do
    let c ← coprocessorChecked inst
    return if isV5 then .readCoprocessor c else .unknown
  | .writeCoprocessor => do
    let c ← coprocessorChecked inst
    return if isV5 then .writeCoprocessor c else .unknown
  | .multiply => do
    match ← fieldChecked inst 21 23 with
    | 0 => multiplyChecked inst .mul
    | 1 => multiplyChecked inst .mla
    | 4 => multiplyChecked inst .umull
    | 5 => multiplyChecked inst .umlal
    | 6 => multiplyChecked inst .smull
    | 7 => multiplyChecked inst .smlal
    | _ => return .unknown
  | .swap =>
    return .swap (← regChecked inst 16) (← regChecked inst 12) (← regChecked inst 0)
      (← Checked.isBit inst 22)
  | .halfMultiply => do
    let xTop ← Checked.isBit inst 5
    let op : HalfMulOp :=
      match ← fieldChecked inst 21 22 with
      | 0 => .smla
      | 1 => if xTop then .smulw else .smlaw
      | 2 => .smlal
      | _ => .smul
    let i := .halfMultiply op (← regChecked inst 16) (← regChecked inst 12) (← regChecked inst 8)
      (← regChecked inst 0) xTop (← Checked.isBit inst 6)
    return if isV5 then i else .unknown
  | .exchange => return .exchange (← regChecked inst 0)
  | .callExchange => do
    let m ← regChecked inst 0
    return if isV5 then .callExchange m else .unknown
  | .leadingZeros => do
    let i := .leadingZeros (← regChecked inst 12) (← regChecked inst 0)
    return if isV5 then i else .unknown
  | .saturating => do
    let op : SaturatingOp :=
      match ← fieldChecked inst 21 22 with
      | 0 => .add
      | 1 => .sub
      | 2 => .doubleAdd
      | _ => .doubleSub
    let i := .saturating op (← regChecked inst 12) (← regChecked inst 16) (← regChecked inst 0)
    return if isV5 then i else .unknown
  | .readStatus => return .readStatus (← regChecked inst 12) (← Checked.isBit inst 22)
  | .writeStatusRegister => do writeStatusChecked inst (.register (← regChecked inst 0))
  | .writeStatusImmediate => do
    writeStatusChecked inst
      (.immediate (rotateRight (inst &&& 0xFF) ((← fieldChecked inst 8 11) <<< 1)))
  | .extraTransfer => do
    match ← extraKindChecked isV5 inst with
    | some kind =>
      return .transfer (← regChecked inst 16) (← regChecked inst 12) (← extraOffsetChecked inst)
        (← transferModeChecked inst kind)
    | none => return .unknown
  | .aluShiftedImmediate => do
    aluChecked inst (.shiftedImmediate (← regChecked inst 0) (← shiftKindChecked inst)
      (← fieldChecked inst 7 11))
  | .aluShiftedRegister => do
    aluChecked inst (.shiftedRegister (← regChecked inst 0) (← shiftKindChecked inst)
      (← regChecked inst 8))
  | .aluImmediate => do
    aluChecked inst (.immediate (inst &&& 0xFF) ((← fieldChecked inst 8 11) <<< 1))
  | .transfer => do
    let kind : TransferKind :=
      match ← Checked.isBit inst 20, ← Checked.isBit inst 22 with
      | true, true => .loadByte
      | true, false => .loadWord
      | false, true => .storeByte
      | false, false => .storeWord
    let offset : Offset ←
      if ← Checked.isBit inst 25 then shiftedOffsetChecked inst
      else pure (.immediate (inst &&& 0xFFF))
    return .transfer (← regChecked inst 16) (← regChecked inst 12) offset
      (← transferModeChecked inst kind)
  | .blockTransfer =>
    return .blockTransfer (← regChecked inst 16) inst.toUInt16 (← Checked.isBit inst 22)
      { pre := ← Checked.isBit inst 24, up := ← Checked.isBit inst 23,
        load := ← Checked.isBit inst 20, writeback := ← Checked.isBit inst 21 }
  | .miscellaneous | .reservedImmediate | .reservedTransfer | .unassigned => return .unknown

/-- The instruction that a word encodes. -/
def decodeChecked (isV5 : Bool) (inst : UInt32) : Checked Instruction :=
  if isV5 && condition inst == 15 then decodeUnconditionalChecked inst
  else decodeAsChecked isV5 inst (Encoding.ofIndex (index inst))

end Arm

namespace Thumb

/-! ## Fields of short instructions -/

/-- The low register in the three bits from position `start` on. -/
def regChecked (inst : UInt16) (start : Nat) : Checked LowRegister :=
  Checked.index 8 (bits inst start 3).toNat

/-- The source and destination of an operation on high registers. -/
def highRegsChecked (inst : UInt16) : Checked (Register × Register) := do
  let s ← Checked.index 16 (bits inst 3 4).toNat
  let d ← Checked.index 16 ((bits inst 0 3) ||| ((← Checked.bit inst 7) <<< 3)).toNat
  return (s, d)

/-- The condition of a branch. -/
def conditionChecked (inst : UInt16) : Checked (Fin 16) := Checked.index 16 (bits inst 8 4).toNat

/-- How far the stack pointer is moved: up, or down if bit 7 is set. -/
def stackOffsetChecked (inst : UInt16) : Checked Int32 := do
  let offset := (imm7 inst).toInt32
  if ← Checked.isBit inst 7 then Checked.negSigned offset else return offset

/-- The offset of a branch with a condition. -/
def shortOffsetChecked (inst : UInt16) : Checked Int32 :=
  Checked.mulSigned (signExtend8 (imm8 inst)).toInt32 2

/-- The offset of a branch without one. -/
def branchOffsetChecked (inst : UInt16) : Checked Int32 := Checked.mulSigned (signExtend11 inst) 2

/-! ## Short instructions -/

/-- The instruction that a halfword encodes. -/
def decodeChecked (isV5 : Bool) (inst : UInt16) : Checked Instruction := do
  let fits (mask value : UInt16) : Bool := inst &&& mask == value
  let d ← regChecked inst 0
  let s ← regChecked inst 3
  let n ← regChecked inst 6
  let h ← regChecked inst 8
  -- Shifts and small sums
  if fits 0xF800 0x0000 then return .shift .lsl d s (imm5 inst)
  else if fits 0xF800 0x0800 then return .shift .lsr d s (imm5 inst)
  else if fits 0xF800 0x1000 then return .shift .asr d s (imm5 inst)
  else if fits 0xFE00 0x1800 then return .addSubtract false d s n
  else if fits 0xFE00 0x1A00 then return .addSubtract true d s n
  else if fits 0xFE00 0x1C00 then return .shift .add d s (UInt32.ofNat n.val)
  else if fits 0xFE00 0x1E00 then return .shift .sub d s (UInt32.ofNat n.val)
  -- Byte operands
  else if fits 0xF800 0x2000 then return .immediate .mov h (imm8 inst)
  else if fits 0xF800 0x2800 then return .immediate .cmp h (imm8 inst)
  else if fits 0xF800 0x3000 then return .immediate .add h (imm8 inst)
  else if fits 0xF800 0x3800 then return .immediate .sub h (imm8 inst)
  -- Two registers
  else if fits 0xFC00 0x4000 then return .alu (aluOp inst) d s
  else if fits 0xFF00 0x4400 then
    let (source, target) ← highRegsChecked inst
    return .highAdd source target
  else if fits 0xFF00 0x4500 then
    let (source, target) ← highRegsChecked inst
    return .highCompare source target
  else if fits 0xFF00 0x4600 then
    let (source, target) ← highRegsChecked inst
    return .highMove source target
  else if fits 0xFF00 0x4700 then
    let link ← Checked.isBit inst 7
    let (source, _) ← highRegsChecked inst
    return if link && !isV5 then .unknown else .exchange source link
  -- Single transfers
  else if fits 0xF800 0x4800 then return .loadLiteral h (imm8 inst <<< 2)
  else if fits 0xF000 0x5000 then return .transferRegister (transferOp inst) d s n
  else if fits 0xF800 0x6000 then return .transferImmediate .storeWord d s (imm5 inst <<< 2)
  else if fits 0xF800 0x6800 then return .transferImmediate .loadWord d s (imm5 inst <<< 2)
  else if fits 0xF800 0x7000 then return .transferImmediate .storeByte d s (imm5 inst)
  else if fits 0xF800 0x7800 then return .transferImmediate .loadByte d s (imm5 inst)
  else if fits 0xF000 0x8000 then
    let load ← Checked.isBit inst 11
    return .transferImmediate (if load then .loadHalf else .storeHalf) d s (imm5 inst <<< 1)
  else if fits 0xF000 0x9000 then
    return .transferStack (← Checked.isBit inst 11) h (imm8 inst <<< 2)
  -- Addresses and the stack
  else if fits 0xF000 0xA000 then
    return .relativeAddress (← Checked.isBit inst 11) h (imm8 inst <<< 2)
  else if fits 0xFF00 0xB000 then return .moveStack (← stackOffsetChecked inst)
  else if fits 0xFE00 0xB400 then return .push inst.toUInt8 (← Checked.isBit inst 8)
  else if fits 0xFE00 0xBC00 then return .pop inst.toUInt8 (← Checked.isBit inst 8)
  else if fits 0xF800 0xC000 then return .storeBlock h inst.toUInt8
  else if fits 0xF800 0xC800 then return .loadBlock h inst.toUInt8
  -- Branches
  else if fits 0xFF00 0xDF00 then return .softwareInterrupt inst.toUInt8
  else if fits 0xFF00 0xDE00 then return .unknown
  else if fits 0xF000 0xD000 then
    return .branchIf (← conditionChecked inst) (← shortOffsetChecked inst)
  else if fits 0xF800 0xE000 then return .branch (← branchOffsetChecked inst)
  else if fits 0xF800 0xF000 then return .prepareCall (signExtend11 inst <<< 12)
  else if fits 0xF800 0xF800 then return .call (imm11 inst) true
  else if fits 0xF800 0xE800 then
    return if isV5 then .call (imm11 inst) false else .unknown
  else return .unknown

end Thumb
end Handheld
