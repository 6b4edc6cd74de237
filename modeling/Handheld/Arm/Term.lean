import Handheld.Arm.Instruction
import Handheld.Term

/-!
# Written terms of long instructions

The full written form of a decoded instruction, with every field.
-/

namespace Handheld

open Term

/-- A register as a term. -/
def Register.term (r : Register) : String := application "Register" [natural r.val]

/-- A short instruction's register as a term. -/
def LowRegister.term (r : LowRegister) : String := application "LowRegister" [natural r.val]

/-- A relative offset as a term. -/
def offsetTerm (offset : Int32) : String := application "RelativeOffset" [integer offset.toInt]

/-- An address as a term. -/
def addressTerm (address : UInt32) : String := application "Address" [natural address.toNat]

/-- A kind of shift as a term. -/
def ShiftKind.term (k : ShiftKind) : String := k.name.capitalize

namespace Arm

/-- The operation's name in listings. -/
def AluOp.mnemonic : AluOp → String
  | and => "and" | eor => "eor" | sub => "sub" | rsb => "rsb"
  | add => "add" | adc => "adc" | sbc => "sbc" | rsc => "rsc"
  | tst => "tst" | teq => "teq" | cmp => "cmp" | cmn => "cmn"
  | orr => "orr" | mov => "mov" | bic => "bic" | mvn => "mvn"

/-- The operation's name in listings. -/
def MulOp.mnemonic : MulOp → String
  | mul => "mul" | mla => "mla" | umull => "umull" | umlal => "umlal" | smull => "smull"
  | smlal => "smlal"

def HalfMulOp.term : HalfMulOp → String
  | smla => "SmlaXy" | smlaw => "SmlawY" | smulw => "SmulwY" | smlal => "SmlalXy"
  | smul => "SmulXy"

def SaturatingOp.term : SaturatingOp → String
  | add => "Qadd" | sub => "Qsub" | doubleAdd => "QdAdd" | doubleSub => "QdSub"

/-- The operation's name in listings. -/
def SaturatingOp.mnemonic (op : SaturatingOp) : String := op.term.toLower

def TransferKind.term : TransferKind → String
  | loadByte => "LoadByte" | loadSignedByte => "LoadSignedByte"
  | loadHalf => "LoadHalfword" | loadSignedHalf => "LoadSignedHalfword"
  | loadWord => "LoadWord" | loadDouble => "LoadDoubleWord"
  | storeByte => "StoreByte" | storeHalf => "StoreHalfword"
  | storeWord => "StoreWord" | storeDouble => "StoreDoubleWord"

def Operand.term : Operand → String
  | immediate value rotate =>
    record "Immediate" [("value", natural value.toNat), ("rotate", natural rotate.toNat)]
  | shiftedImmediate m shift amount =>
    record "ShiftedImmediate"
      [("m", m.term), ("shift", shift.term), ("by", natural amount.toNat)]
  | shiftedRegister m shift amount =>
    record "ShiftedRegister" [("m", m.term), ("shift", shift.term), ("by", amount.term)]

def StatusSource.term : StatusSource → String
  | immediate value => application "Immediate" [natural value.toNat]
  | register m => application "Register" [m.term]

def Offset.term : Offset → String
  | immediate value => application "Immediate" [natural value.toNat]
  | register m => application "Register" [m.term]
  | shiftedRegister base shift amount =>
    record "ShiftedRegister"
      [("base", base.term), ("shift", shift.term), ("by", natural amount.toNat)]

def TransferMode.term (t : TransferMode) : String :=
  record "ArmLdrStrConfig"
    [("pre", truth t.pre), ("up", truth t.up), ("kind", t.kind.term),
      ("writeback", truth t.writeback)]

def BlockMode.term (t : BlockMode) : String :=
  record "ArmLdmStmConfig"
    [("pre", truth t.pre), ("up", truth t.up), ("ldr", truth t.load),
      ("writeback", truth t.writeback)]

def Coprocessor.term (c : Coprocessor) : String :=
  record "Coprocessor"
    [("opc", natural c.opc.toNat), ("cn", natural c.cn.toNat), ("d", c.d.term),
      ("pn", natural c.pn.toNat), ("cp", natural c.cp.toNat), ("cm", natural c.cm.toNat)]

/-- The full written form of an instruction. -/
def Instruction.term : Instruction → String
  | unknown => "Unknown"
  | softwareInterrupt comment => record "Swi" [("comment", natural comment.toNat)]
  | branch offset link => record "B" [("offset", offsetTerm offset), ("link", truth link)]
  | callShort offset => record "BlxImm" [("offset", offsetTerm offset)]
  | exchange m => record "Bx" [("m", m.term)]
  | callExchange m => record "BlxReg" [("m", m.term)]
  | alu op setFlags n d operand =>
    record "Alu"
      [("op", op.mnemonic.capitalize), ("s_bit", truth setFlags), ("n", n.term), ("d", d.term),
        ("operand", operand.term)]
  | multiply op setFlags d n s m =>
    record "Mul"
      [("op", op.mnemonic.capitalize), ("s_bit", truth setFlags), ("d", d.term), ("n", n.term),
        ("s", s.term), ("m", m.term)]
  | halfMultiply op d n s m xTop yTop =>
    record "ShMul"
      [("op", op.term), ("d", d.term), ("n", n.term), ("s", s.term), ("m", m.term),
        ("x_top", truth xTop), ("y_top", truth yTop)]
  | leadingZeros d m => record "Clz" [("d", d.term), ("m", m.term)]
  | saturating op d n m =>
    record "Q" [("op", op.term), ("d", d.term), ("n", n.term), ("m", m.term)]
  | readStatus d saved => record "Mrs" [("d", d.term), ("spsr", truth saved)]
  | writeStatus source flags control saved =>
    record "Msr"
      [("src", source.term), ("flags", truth flags), ("ctrl", truth control),
        ("spsr", truth saved)]
  | transfer n d offset mode =>
    record "LdrStr"
      [("n", n.term), ("d", d.term), ("offset", offset.term), ("config", mode.term)]
  | blockTransfer n list statusBit mode =>
    record "LdmStm"
      [("n", n.term), ("rlist", natural list.toNat), ("s_bit", truth statusBit),
        ("config", mode.term)]
  | swap n d m byte =>
    record "Swp" [("n", n.term), ("d", d.term), ("m", m.term), ("byte", truth byte)]
  | readCoprocessor c => application "Mrc" [c.term]
  | writeCoprocessor c => application "Mcr" [c.term]
  | preload => "Pld"

end Arm
end Handheld
