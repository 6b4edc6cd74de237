import Handheld.Arm.Term
import Handheld.Thumb.Instruction

/-!
# Written terms of short instructions

The full written form of a decoded instruction, with every field.
-/

namespace Handheld.Thumb

open Term

/-- The operation's name in listings. -/
def ShiftOp.mnemonic : ShiftOp → String
  | lsl => "lsl" | lsr => "lsr" | asr => "asr" | add => "add" | sub => "sub"

/-- The operation's name in listings. -/
def ImmediateOp.mnemonic : ImmediateOp → String
  | mov => "mov" | cmp => "cmp" | add => "add" | sub => "sub"

/-- The operation's name in listings. -/
def AluOp.mnemonic : AluOp → String
  | and => "and" | eor => "eor" | lsl => "lsl" | lsr => "lsr"
  | asr => "asr" | adc => "adc" | sbc => "sbc" | ror => "ror"
  | tst => "tst" | neg => "neg" | cmp => "cmp" | cmn => "cmn"
  | orr => "orr" | mul => "mul" | bic => "bic" | mvn => "mvn"

/-- The operation as a term. -/
def AluOp.term (op : AluOp) : String := op.mnemonic.capitalize

/-- The transfer's name in listings. -/
def TransferOp.mnemonic : TransferOp → String
  | storeWord => "str" | storeHalf => "strh" | storeByte => "strb" | loadSignedByte => "ldsb"
  | loadWord => "ldr" | loadHalf => "ldrh" | loadByte => "ldrb" | loadSignedHalf => "ldsh"

/-- The source and destination of an operation on high registers. -/
def highTerm (name : String) (s d : Register) : String :=
  application name [application "" [s.term, d.term]]

/-- The full written form of an instruction. -/
def Instruction.term : Instruction → String
  | unknown => "Unknown"
  | shift op d s amount =>
    application "AluImm" [op.mnemonic.capitalize, d.term, s.term, natural amount.toNat]
  | addSubtract subtract d s n =>
    record "AddSubReg"
      [("sub", truth subtract), ("d", d.term), ("s", s.term), ("n", n.term)]
  | immediate op d value =>
    application "Imm8" [op.mnemonic.capitalize, d.term, natural value.toNat]
  | alu op d s => application "Alu" [op.term, d.term, s.term]
  | highAdd s d => highTerm "HiAdd" s d
  | highCompare s d => highTerm "HiCmp" s d
  | highMove s d => highTerm "HiMov" s d
  | exchange s link => record "HiBx" [("s", s.term), ("blx", truth link)]
  | loadLiteral d offset => record "LdrPc" [("d", d.term), ("offset", addressTerm offset)]
  | transferRegister op d b o =>
    record "LdrStrReg"
      [("op", op.mnemonic.capitalize), ("d", d.term), ("b", b.term), ("o", o.term)]
  | transferImmediate op d b offset =>
    record "LdrStrImm"
      [("op", op.mnemonic.capitalize), ("d", d.term), ("b", b.term),
        ("offset", addressTerm offset)]
  | transferStack load d offset =>
    record "LdrStrSp" [("ldr", truth load), ("d", d.term), ("offset", addressTerm offset)]
  | relativeAddress sp d offset =>
    record "RelAddr" [("sp", truth sp), ("d", d.term), ("offset", addressTerm offset)]
  | moveStack offset => application "SpOffs" [offsetTerm offset]
  | push list lr => record "Push" [("rlist", natural list.toNat), ("lr", truth lr)]
  | pop list pc => record "Pop" [("rlist", natural list.toNat), ("pc", truth pc)]
  | storeBlock b list => record "Stmia" [("b", b.term), ("rlist", natural list.toNat)]
  | loadBlock b list => record "Ldmia" [("b", b.term), ("rlist", natural list.toNat)]
  | branchIf condition offset =>
    record "BCond" [("cond", natural condition.val), ("offset", offsetTerm offset)]
  | softwareInterrupt comment => record "Swi" [("comment", natural comment.toNat)]
  | branch offset => application "B" [offsetTerm offset]
  | prepareCall offset => application "SetLr" [offsetTerm offset]
  | call offset short => record "Bl" [("offset", addressTerm offset), ("thumb", truth short)]

end Handheld.Thumb
