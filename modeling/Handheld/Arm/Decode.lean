import Handheld.Arm.Instruction

/-!
# Decoding of long instructions

The class of an instruction is decided by twelve bits of its word, 27 to 20 and 7 to 4, which
together form its index. The chart of classes is a list of patterns over the index, of which the
first that fits counts; the class then says how the remaining fields are read. The additions of
ARMv5 mean nothing on ARMv4.
-/

namespace Handheld.Arm

open Word

/-- A class of encodings. -/
inductive Encoding where
  | branch | softwareInterrupt | readCoprocessor | writeCoprocessor | multiply | swap
  | halfMultiply | exchange | callExchange | leadingZeros | saturating | readStatus
  | writeStatusRegister | writeStatusImmediate | extraTransfer | miscellaneous
  | aluShiftedImmediate | aluShiftedRegister | reservedImmediate | aluImmediate
  | reservedTransfer | transfer | blockTransfer | unassigned
  deriving DecidableEq, Repr

/-- The twelve bits of a word that choose its class: 27 to 20, then 7 to 4. -/
def index (inst : UInt32) : UInt32 := (bits inst 20 8 <<< 4) ||| bits inst 4 4

/-- The class of an index, by the first pattern that fits. A pattern is a mask of the bits that
count and their values. -/
def Encoding.ofIndex (i : UInt32) : Encoding :=
  let fits (mask value : UInt32) : Bool := i &&& mask == value
  if fits 0xE00 0xA00 then .branch                      -- 101x xxxx  xxxx
  else if fits 0xF00 0xF00 then .softwareInterrupt      -- 1111 xxxx  xxxx
  else if fits 0xF11 0xE11 then .readCoprocessor        -- 1110 xxx1  xxx1
  else if fits 0xF11 0xE01 then .writeCoprocessor       -- 1110 xxx0  xxx1
  else if fits 0xF0F 0x009 then .multiply               -- 0000 xxxx  1001
  else if fits 0xFBF 0x109 then .swap                   -- 0001 0x00  1001
  else if fits 0xF99 0x108 then .halfMultiply           -- 0001 0xx0  1xx0
  else if fits 0xFFF 0x121 then .exchange               -- 0001 0010  0001
  else if fits 0xFFF 0x123 then .callExchange           -- 0001 0010  0011
  else if fits 0xFFF 0x161 then .leadingZeros           -- 0001 0110  0001
  else if fits 0xF9F 0x105 then .saturating             -- 0001 0xx0  0101
  else if fits 0xFBF 0x100 then .readStatus             -- 0001 0x00  0000
  else if fits 0xFBF 0x120 then .writeStatusRegister    -- 0001 0x10  0000
  else if fits 0xFB0 0x320 then .writeStatusImmediate   -- 0011 0x10  xxxx
  else if fits 0xE09 0x009 then .extraTransfer          -- 000x xxxx  1xx1
  else if fits 0xF90 0x100 then .miscellaneous          -- 0001 0xx0  xxxx
  else if fits 0xE01 0x000 then .aluShiftedImmediate    -- 000x xxxx  xxx0
  else if fits 0xE09 0x001 then .aluShiftedRegister     -- 000x xxxx  0xx1
  else if fits 0xFB0 0x300 then .reservedImmediate      -- 0011 0x00  xxxx
  else if fits 0xE00 0x200 then .aluImmediate           -- 001x xxxx  xxxx
  else if fits 0xE01 0x601 then .reservedTransfer       -- 011x xxxx  xxx1
  else if fits 0xC00 0x400 then .transfer               -- 01xx xxxx  xxxx
  else if fits 0xE00 0x800 then .blockTransfer          -- 100x xxxx  xxxx
  else .unassigned

/-! ## Fields -/

/-- The condition in the top four bits. -/
def condition (inst : UInt32) : Fin 16 := Fin.ofNat 16 (inst >>> 28).toNat

/-- The register in the four bits from position `start` on. -/
def reg (inst : UInt32) (start : Nat) : Register := Register.ofBits inst start

/-- The offset of a branch in bytes: 24 signed bits that count words. -/
def branchOffset (inst : UInt32) : Int32 := signExtend24 inst * 4

/-- The data-processing operation in bits 21 to 24. -/
def aluOp (inst : UInt32) : AluOp := AluOp.all[Fin.ofNat 16 (bits inst 21 4).toNat]

/-- A data-processing instruction with the given operand. -/
def alu (inst : UInt32) (operand : Operand) : Instruction :=
  .alu (aluOp inst) (isBit inst 20) (reg inst 16) (reg inst 12) operand

/-- A multiplication. -/
def multiply (inst : UInt32) (op : MulOp) : Instruction :=
  .multiply op (isBit inst 20) (reg inst 16) (reg inst 12) (reg inst 8) (reg inst 0)

/-- The addressing of a single transfer. A transfer that adds the offset afterwards always keeps
the sum. -/
def transferMode (inst : UInt32) (kind : TransferKind) : TransferMode :=
  let pre := isBit inst 24
  { pre, up := isBit inst 23, kind, writeback := isBit inst 21 || !pre }

/-- The offset of a halfword, doubleword or signed transfer. -/
def extraOffset (inst : UInt32) : Offset :=
  if isBit inst 22 then .immediate ((bits inst 8 4 <<< 4) ||| bits inst 0 4)
  else .register (reg inst 0)

/-- What a halfword, doubleword or signed transfer moves. Doublewords need ARMv5 and an even
register. -/
def extraKind? (isV5 : Bool) (inst : UInt32) : Option TransferKind :=
  let double := isV5 && !isBit inst 12
  match isBit inst 20, bits inst 5 2 with
  | true, 1 => some .loadHalf
  | true, 2 => some .loadSignedByte
  | true, 3 => some .loadSignedHalf
  | false, 1 => some .storeHalf
  | false, 2 => if double then some .loadDouble else none
  | false, 3 => if double then some .storeDouble else none
  | _, _ => none

/-- The fields of a transfer to or from a coprocessor. -/
def coprocessor (inst : UInt32) : Coprocessor :=
  { opc := bits inst 21 3
    cn := bits inst 16 4
    d := reg inst 12
    pn := bits inst 8 4
    cp := bits inst 5 3
    cm := bits inst 0 4 }

/-- A write to a status register. -/
def writeStatus (inst : UInt32) (source : StatusSource) : Instruction :=
  .writeStatus source (isBit inst 19) (isBit inst 16) (isBit inst 22)

/-! ## Instructions -/

/-- An ARMv5 instruction whose condition bits are all set. -/
def decodeUnconditional (inst : UInt32) : Instruction :=
  if bits inst 25 3 = 0b101 then
    -- Bit 24 adds a halfword to the offset.
    .callShort (branchOffset inst + if isBit inst 24 then 2 else 0)
  else if inst &&& 0x0D70F000 = 0x0550F000 then .preload
  else .unknown

/-- The instruction of a word, read as a member of its class. -/
def decodeAs (isV5 : Bool) (inst : UInt32) : Encoding → Instruction
  | .branch => .branch (branchOffset inst) (isBit inst 24)
  | .softwareInterrupt => .softwareInterrupt (bits inst 16 8).toUInt8
  | .readCoprocessor => if isV5 then .readCoprocessor (coprocessor inst) else .unknown
  | .writeCoprocessor => if isV5 then .writeCoprocessor (coprocessor inst) else .unknown
  | .multiply =>
    match bits inst 21 3 with
    | 0 => multiply inst .mul
    | 1 => multiply inst .mla
    | 4 => multiply inst .umull
    | 5 => multiply inst .umlal
    | 6 => multiply inst .smull
    | 7 => multiply inst .smlal
    | _ => .unknown
  | .swap => .swap (reg inst 16) (reg inst 12) (reg inst 0) (isBit inst 22)
  | .halfMultiply =>
    let op : HalfMulOp :=
      match bits inst 21 2 with
      | 0 => .smla
      | 1 => if isBit inst 5 then .smulw else .smlaw
      | 2 => .smlal
      | _ => .smul
    if isV5 then
      .halfMultiply op (reg inst 16) (reg inst 12) (reg inst 8) (reg inst 0)
        (isBit inst 5) (isBit inst 6)
    else .unknown
  | .exchange => .exchange (reg inst 0)
  | .callExchange => if isV5 then .callExchange (reg inst 0) else .unknown
  | .leadingZeros => if isV5 then .leadingZeros (reg inst 12) (reg inst 0) else .unknown
  | .saturating =>
    let op : SaturatingOp :=
      match bits inst 21 2 with
      | 0 => .add
      | 1 => .sub
      | 2 => .doubleAdd
      | _ => .doubleSub
    if isV5 then .saturating op (reg inst 12) (reg inst 16) (reg inst 0) else .unknown
  | .readStatus => .readStatus (reg inst 12) (isBit inst 22)
  | .writeStatusRegister => writeStatus inst (.register (reg inst 0))
  | .writeStatusImmediate =>
    writeStatus inst (.immediate (rotateRight (inst &&& 0xFF) (bits inst 8 4 <<< 1)))
  | .extraTransfer =>
    match extraKind? isV5 inst with
    | some kind => .transfer (reg inst 16) (reg inst 12) (extraOffset inst) (transferMode inst kind)
    | none => .unknown
  | .aluShiftedImmediate =>
    alu inst (.shiftedImmediate (reg inst 0) (ShiftKind.ofBits inst) (bits inst 7 5))
  | .aluShiftedRegister =>
    alu inst (.shiftedRegister (reg inst 0) (ShiftKind.ofBits inst) (reg inst 8))
  | .aluImmediate => alu inst (.immediate (inst &&& 0xFF) (bits inst 8 4 <<< 1))
  | .transfer =>
    let kind : TransferKind :=
      match isBit inst 20, isBit inst 22 with
      | true, true => .loadByte
      | true, false => .loadWord
      | false, true => .storeByte
      | false, false => .storeWord
    let offset : Offset :=
      if isBit inst 25 then .shiftedRegister (reg inst 0) (ShiftKind.ofBits inst) (bits inst 7 5)
      else .immediate (inst &&& 0xFFF)
    .transfer (reg inst 16) (reg inst 12) offset (transferMode inst kind)
  | .blockTransfer =>
    .blockTransfer (reg inst 16) inst.toUInt16 (isBit inst 22)
      { pre := isBit inst 24, up := isBit inst 23, load := isBit inst 20,
        writeback := isBit inst 21 }
  | .miscellaneous | .reservedImmediate | .reservedTransfer | .unassigned => .unknown

/-- The instruction that a word encodes. -/
def decode (isV5 : Bool) (inst : UInt32) : Instruction :=
  if isV5 && condition inst == 15 then decodeUnconditional inst
  else decodeAs isV5 inst (Encoding.ofIndex (index inst))

end Handheld.Arm
