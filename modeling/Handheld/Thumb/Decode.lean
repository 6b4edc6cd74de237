import Handheld.Thumb.Instruction

/-!
# Decoding of short instructions

The chart of classes is a list of patterns over the whole halfword; each fixes the bits that name
the class. The additions of ARMv5 mean nothing on ARMv4.
-/

namespace Handheld.Thumb

open Word

/-! ## Fields -/

/-- The low register in the three bits from position `start` on. -/
def reg (inst : UInt16) (start : Nat) : LowRegister := LowRegister.ofBits inst start

/-- The source and destination of an operation on high registers. -/
def highRegs (inst : UInt16) : Register × Register :=
  (Fin.ofNat 16 (bits inst 3 4).toNat,
    Fin.ofNat 16 ((bits inst 0 3) ||| (bit inst 7 <<< 3)).toNat)

/-- Five bits from position 6 on. -/
def imm5 (inst : UInt16) : UInt32 := (bits inst 6 5).toUInt32

/-- The low seven bits, counting words. -/
def imm7 (inst : UInt16) : UInt32 := ((inst &&& 0x7F) <<< 2).toUInt32

/-- The low byte. -/
def imm8 (inst : UInt16) : UInt32 := (inst &&& 0xFF).toUInt32

/-- The low eleven bits, counting halfwords. -/
def imm11 (inst : UInt16) : UInt32 := (bits inst 0 11).toUInt32 <<< 1

/-- The operation on two registers in bits 6 to 9. -/
def aluOp (inst : UInt16) : AluOp := AluOp.all[Fin.ofNat 16 (bits inst 6 4).toNat]

/-- The transfer in bits 9 to 11. -/
def transferOp (inst : UInt16) : TransferOp := TransferOp.all[Fin.ofNat 8 (bits inst 9 3).toNat]

/-! ## Instructions -/

/-- The instruction that a halfword encodes. -/
def decode (isV5 : Bool) (inst : UInt16) : Instruction :=
  let fits (mask value : UInt16) : Bool := inst &&& mask == value
  let d := reg inst 0
  let s := reg inst 3
  let n := reg inst 6
  let h := reg inst 8
  -- Shifts and small sums
  if fits 0xF800 0x0000 then .shift .lsl d s (imm5 inst)
  else if fits 0xF800 0x0800 then .shift .lsr d s (imm5 inst)
  else if fits 0xF800 0x1000 then .shift .asr d s (imm5 inst)
  else if fits 0xFE00 0x1800 then .addSubtract false d s n
  else if fits 0xFE00 0x1A00 then .addSubtract true d s n
  else if fits 0xFE00 0x1C00 then .shift .add d s (UInt32.ofNat n.val)
  else if fits 0xFE00 0x1E00 then .shift .sub d s (UInt32.ofNat n.val)
  -- Byte operands
  else if fits 0xF800 0x2000 then .immediate .mov h (imm8 inst)
  else if fits 0xF800 0x2800 then .immediate .cmp h (imm8 inst)
  else if fits 0xF800 0x3000 then .immediate .add h (imm8 inst)
  else if fits 0xF800 0x3800 then .immediate .sub h (imm8 inst)
  -- Two registers
  else if fits 0xFC00 0x4000 then .alu (aluOp inst) d s
  else if fits 0xFF00 0x4400 then .highAdd (highRegs inst).1 (highRegs inst).2
  else if fits 0xFF00 0x4500 then .highCompare (highRegs inst).1 (highRegs inst).2
  else if fits 0xFF00 0x4600 then .highMove (highRegs inst).1 (highRegs inst).2
  else if fits 0xFF00 0x4700 then
    let link := isBit inst 7
    if link && !isV5 then .unknown else .exchange (highRegs inst).1 link
  -- Single transfers
  else if fits 0xF800 0x4800 then .loadLiteral h (imm8 inst <<< 2)
  else if fits 0xF000 0x5000 then .transferRegister (transferOp inst) d s n
  else if fits 0xF800 0x6000 then .transferImmediate .storeWord d s (imm5 inst <<< 2)
  else if fits 0xF800 0x6800 then .transferImmediate .loadWord d s (imm5 inst <<< 2)
  else if fits 0xF800 0x7000 then .transferImmediate .storeByte d s (imm5 inst)
  else if fits 0xF800 0x7800 then .transferImmediate .loadByte d s (imm5 inst)
  else if fits 0xF000 0x8000 then
    .transferImmediate (if isBit inst 11 then .loadHalf else .storeHalf) d s (imm5 inst <<< 1)
  else if fits 0xF000 0x9000 then .transferStack (isBit inst 11) h (imm8 inst <<< 2)
  -- Addresses and the stack
  else if fits 0xF000 0xA000 then .relativeAddress (isBit inst 11) h (imm8 inst <<< 2)
  else if fits 0xFF00 0xB000 then
    let offset := (imm7 inst).toInt32
    .moveStack (if isBit inst 7 then -offset else offset)
  else if fits 0xFE00 0xB400 then .push inst.toUInt8 (isBit inst 8)
  else if fits 0xFE00 0xBC00 then .pop inst.toUInt8 (isBit inst 8)
  else if fits 0xF800 0xC000 then .storeBlock h inst.toUInt8
  else if fits 0xF800 0xC800 then .loadBlock h inst.toUInt8
  -- Branches
  else if fits 0xFF00 0xDF00 then .softwareInterrupt inst.toUInt8
  else if fits 0xFF00 0xDE00 then .unknown
  else if fits 0xF000 0xD000 then
    .branchIf (Fin.ofNat 16 (bits inst 8 4).toNat) ((signExtend8 (imm8 inst)).toInt32 * 2)
  else if fits 0xF800 0xE000 then .branch (signExtend11 inst * 2)
  else if fits 0xF800 0xF000 then .prepareCall (signExtend11 inst <<< 12)
  else if fits 0xF800 0xF800 then .call (imm11 inst) true
  else if fits 0xF800 0xE800 then
    if isV5 then .call (imm11 inst) false else .unknown
  else .unknown

end Handheld.Thumb
