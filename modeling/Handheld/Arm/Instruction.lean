import Handheld.Cpu.Mode
import Handheld.Cpu.Shifter

/-!
# Long instructions

The instructions of the 32-bit set. Condition bits are not part of an instruction: they are read
from the word that encodes it.
-/

namespace Handheld.Arm

/-- A data-processing operation, in the order of its encoding. -/
inductive AluOp where
  | and | eor | sub | rsb | add | adc | sbc | rsc | tst | teq | cmp | cmn | orr | mov | bic | mvn
  deriving DecidableEq, Repr, Inhabited

namespace AluOp

/-- All operations, by their encoding. -/
def all : Vector AluOp 16 :=
  #v[and, eor, sub, rsb, add, adc, sbc, rsc, tst, teq, cmp, cmn, orr, mov, bic, mvn]

/-- Whether the operation writes its result; comparisons do not. -/
def writes (op : AluOp) : Bool := !(op matches tst | teq | cmp | cmn)

/-- Whether the carry comes out of the shifter, not out of the adder. -/
def isLogical (op : AluOp) : Bool := op matches and | eor | tst | teq | orr | mov | bic | mvn

end AluOp

/-- The second operand of a data-processing operation. -/
inductive Operand where
  /-- A byte, rotated right by an even amount. -/
  | immediate (value rotate : UInt32)
  | shiftedImmediate (m : Register) (shift : ShiftKind) (amount : UInt32)
  | shiftedRegister (m : Register) (shift : ShiftKind) (amount : Register)
  deriving DecidableEq, Repr

/-- The source of a write to a status register. -/
inductive StatusSource where
  | immediate (value : UInt32)
  | register (m : Register)
  deriving DecidableEq, Repr

/-- The offset of a single transfer. -/
inductive Offset where
  | immediate (value : UInt32)
  | register (m : Register)
  | shiftedRegister (base : Register) (shift : ShiftKind) (amount : UInt32)
  deriving DecidableEq, Repr

/-- A multiplication; the last four give 64 bits. -/
inductive MulOp where
  | mul | mla | umull | umlal | smull | smlal
  deriving DecidableEq, Repr

namespace MulOp

/-- Whether the multiplier is taken as unsigned. -/
def isUnsigned (op : MulOp) : Bool := op matches umull | umlal

/-- Whether the product is added to the old value of the destination. -/
def accumulates (op : MulOp) : Bool := op matches mla | umlal | smlal

end MulOp

/-- A multiplication of signed halfwords. -/
inductive HalfMulOp where
  /-- Halves, added to a word. -/
  | smla
  /-- A word by a half, added to a word. -/
  | smlaw
  /-- A word by a half. -/
  | smulw
  /-- Halves, added to a long word. -/
  | smlal
  /-- Halves. -/
  | smul
  deriving DecidableEq, Repr

/-- An addition or subtraction that stays at the ends of the range. -/
inductive SaturatingOp where
  | add | sub | doubleAdd | doubleSub
  deriving DecidableEq, Repr

/-- What a single transfer moves, and where to. -/
inductive TransferKind where
  | loadByte | loadSignedByte | loadHalf | loadSignedHalf | loadWord | loadDouble
  | storeByte | storeHalf | storeWord | storeDouble
  deriving DecidableEq, Repr

namespace TransferKind

/-- Whether memory is read. -/
def isLoad (k : TransferKind) : Bool :=
  k matches loadByte | loadSignedByte | loadHalf | loadSignedHalf | loadWord | loadDouble

/-- Whether memory is written. -/
def isStore (k : TransferKind) : Bool := !k.isLoad

end TransferKind

/-- How a single transfer finds its address. -/
structure TransferMode where
  /-- Add the offset before the transfer, not after. -/
  pre : Bool
  /-- Add the offset, not subtract it. -/
  up : Bool
  kind : TransferKind
  /-- Keep the sum in the base register. -/
  writeback : Bool
  deriving DecidableEq, Repr

/-- How a block transfer finds its addresses. -/
structure BlockMode where
  pre : Bool
  up : Bool
  load : Bool
  writeback : Bool
  deriving DecidableEq, Repr

/-- The fields of a transfer between a register and a coprocessor. -/
structure Coprocessor where
  opc : UInt32
  cn : UInt32
  d : Register
  /-- Number of the coprocessor. -/
  pn : UInt32
  cp : UInt32
  cm : UInt32
  deriving DecidableEq, Repr

/-- A long instruction. -/
inductive Instruction where
  | unknown
  | softwareInterrupt (comment : UInt8)
  | branch (offset : Int32) (link : Bool)
  /-- Call into the short instruction set. -/
  | callShort (offset : Int32)
  | exchange (m : Register)
  | callExchange (m : Register)
  | alu (op : AluOp) (setFlags : Bool) (n d : Register) (operand : Operand)
  /-- In a long multiplication `d` is the high and `n` the low word. -/
  | multiply (op : MulOp) (setFlags : Bool) (d n s m : Register)
  | halfMultiply (op : HalfMulOp) (d n s m : Register) (xTop yTop : Bool)
  | leadingZeros (d m : Register)
  | saturating (op : SaturatingOp) (d n m : Register)
  | readStatus (d : Register) (saved : Bool)
  | writeStatus (source : StatusSource) (flags control saved : Bool)
  | transfer (n d : Register) (offset : Offset) (mode : TransferMode)
  | blockTransfer (n : Register) (list : UInt16) (statusBit : Bool) (mode : BlockMode)
  | swap (n d m : Register) (byte : Bool)
  | readCoprocessor (c : Coprocessor)
  | writeCoprocessor (c : Coprocessor)
  /-- A hint to the cache, without effect. -/
  | preload
  deriving DecidableEq, Repr

end Handheld.Arm
