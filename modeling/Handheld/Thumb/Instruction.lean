import Handheld.Cpu.Mode

/-!
# Short instructions

The instructions of the 16-bit set.
-/

namespace Handheld.Thumb

/-- An operation with a small immediate operand. -/
inductive ShiftOp where
  | lsl | lsr | asr | add | sub
  deriving DecidableEq, Repr

/-- An operation with a byte as operand. -/
inductive ImmediateOp where
  | mov | cmp | add | sub
  deriving DecidableEq, Repr

/-- An operation on two registers, in the order of its encoding. -/
inductive AluOp where
  | and | eor | lsl | lsr | asr | adc | sbc | ror | tst | neg | cmp | cmn | orr | mul | bic | mvn
  deriving DecidableEq, Repr, Inhabited

namespace AluOp

/-- All operations, by their encoding. -/
def all : Vector AluOp 16 :=
  #v[and, eor, lsl, lsr, asr, adc, sbc, ror, tst, neg, cmp, cmn, orr, mul, bic, mvn]

/-- Whether the operation writes its result; comparisons do not. -/
def writes (op : AluOp) : Bool := !(op matches tst | cmp | cmn)

end AluOp

/-- A single transfer, in the order of its encoding. -/
inductive TransferOp where
  | storeWord | storeHalf | storeByte | loadSignedByte | loadWord | loadHalf | loadByte
  | loadSignedHalf
  deriving DecidableEq, Repr, Inhabited

/-- All transfers, by their encoding. -/
def TransferOp.all : Vector TransferOp 8 :=
  #v[storeWord, storeHalf, storeByte, loadSignedByte, loadWord, loadHalf, loadByte,
    loadSignedHalf]

/-- A short instruction. -/
inductive Instruction where
  | unknown
  | shift (op : ShiftOp) (d s : LowRegister) (amount : UInt32)
  | addSubtract (subtract : Bool) (d s n : LowRegister)
  | immediate (op : ImmediateOp) (d : LowRegister) (value : UInt32)
  | alu (op : AluOp) (d s : LowRegister)
  | highAdd (s d : Register)
  | highCompare (s d : Register)
  | highMove (s d : Register)
  | exchange (s : Register) (link : Bool)
  /-- Load a word near the program counter. -/
  | loadLiteral (d : LowRegister) (offset : UInt32)
  | transferRegister (op : TransferOp) (d b o : LowRegister)
  | transferImmediate (op : TransferOp) (d b : LowRegister) (offset : UInt32)
  | transferStack (load : Bool) (d : LowRegister) (offset : UInt32)
  /-- An address relative to the stack pointer or the program counter. -/
  | relativeAddress (sp : Bool) (d : LowRegister) (offset : UInt32)
  | moveStack (offset : Int32)
  | push (list : UInt8) (lr : Bool)
  | pop (list : UInt8) (pc : Bool)
  | storeBlock (b : LowRegister) (list : UInt8)
  | loadBlock (b : LowRegister) (list : UInt8)
  | branchIf (condition : Fin 16) (offset : Int32)
  | softwareInterrupt (comment : UInt8)
  | branch (offset : Int32)
  /-- First half of a call: keep the upper part of the target in the link register. -/
  | prepareCall (offset : Int32)
  /-- Second half of a call, into the short or the long instruction set. -/
  | call (offset : UInt32) (short : Bool)
  deriving DecidableEq, Repr

end Handheld.Thumb
