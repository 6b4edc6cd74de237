import Handheld.Index
import Handheld.Word

/-!
# Processor modes and status flags

The seven modes, the five bits of a status register that choose among them, and the bank in which
each mode keeps its own stack pointer, link register and saved status.
-/

namespace Handheld

open Word

/-- A processor mode. -/
inductive Mode where
  | user | fiq | supervisor | abort | irq | undefined | system
  deriving DecidableEq, Repr, Inhabited

namespace Mode

/-- The mode that the low five bits of a status register choose. Bit 4 is ignored where the older
encodings leave it clear; what is left over behaves like user mode. -/
def ofStatus (status : UInt32) : Mode :=
  let n := status &&& 0x1F
  if n &&& 0x10 = 0 then
    match n &&& 3 with
    | 0 => user
    | 1 => fiq
    | 2 => irq
    | _ => supervisor
  else match n with
    | 0x11 => fiq
    | 0x12 => irq
    | 0x13 => supervisor
    | 0x17 => abort
    | 0x1B => undefined
    | 0x1F => system
    | _ => user

/-- The mode bits that choose this mode. -/
def toBits : Mode → UInt32
  | user => 0x10
  | fiq => 0x11
  | irq => 0x12
  | supervisor => 0x13
  | abort => 0x17
  | undefined => 0x1B
  | system => 0x1F

/-- The bank of the mode's stack pointer, link register and saved status. User and system mode
share one. -/
def bank : Mode → Fin 6
  | user | system => 0
  | fiq => 1
  | supervisor => 2
  | abort => 3
  | irq => 4
  | undefined => 5

/-- Whether the mode has a saved status register. -/
def hasSavedStatus (m : Mode) : Bool := m != user && m != system

@[simp] theorem ofStatus_toBits (m : Mode) : ofStatus m.toBits = m := by cases m <;> decide

end Mode

/-- A bit of the status register. -/
inductive Flag where
  | negative | zero | carry | overflow | saturated | irqDisable | fiqDisable | thumb
  deriving DecidableEq, Repr

/-- Position of a flag in the status register. -/
def Flag.position : Flag → Nat
  | negative => 31
  | zero => 30
  | carry => 29
  | overflow => 28
  | saturated => 27
  | irqDisable => 7
  | fiqDisable => 6
  | thumb => 5

/-! ## Registers -/

/-- One of the sixteen registers of a mode. -/
abbrev Register := Fin 16

/-- One of the eight registers that short instructions reach. -/
abbrev LowRegister := Fin 8

namespace Register

/-- The stack pointer. -/
def sp : Register := 13

/-- The link register. -/
def lr : Register := 14

/-- The program counter. -/
def pc : Register := 15

/-- The register in the four bits of an instruction from position `start` on. -/
def ofBits (inst : UInt32) (start : Nat) : Register := Fin.ofNat 16 (bits inst start 4).toNat

/-- The registers of a list given as a bit set, in ascending order. -/
def ofSet (list : UInt16) : List Register := (List.finRange 16).filter (isBit list ·.val)

/-- How listings write a register number. -/
def numberName : Nat → String
  | 13 => "sp"
  | 14 => "lr"
  | 15 => "pc"
  | n => s!"r{n}"

/-- How listings write a register. -/
def name (r : Register) : String := numberName r.val

end Register

namespace LowRegister

/-- The register as one of the sixteen. -/
def wide (r : LowRegister) : Register := r.castLE (by decide)

/-- The register in the three bits of an instruction from position `start` on. -/
def ofBits (inst : UInt16) (start : Nat) : LowRegister := Fin.ofNat 8 (bits inst start 3).toNat

/-- The registers of a list given as a bit set, in ascending order. -/
def ofSet (list : UInt8) : List LowRegister := (List.finRange 8).filter (isBit list ·.val)

/-- How listings write a register number; the low ones have no names. -/
def numberName (n : Nat) : String := s!"r{n}"

/-- How listings write a register. -/
def name (r : LowRegister) : String := numberName r.val

end LowRegister
end Handheld
