import Handheld.Checked
import Handheld.Cpu.Interrupt
import Handheld.Cpu.State

/-!
# The state of a processor, with checked ranges

What is calculated from the state of a processor, and the tables that are looked into for it, by
operators that check their ranges. A bank is chosen by the mode, which names no other.
-/

namespace Handheld

open Word

namespace Address

/-- The address rounded down to a multiple of `size`, a power of two. -/
def alignDownChecked (address size : UInt32) : Checked UInt32 := do
  return address &&& ~~~(← Checked.sub size 1)

end Address

namespace CpuState

/-! ## Status -/

def isFlagChecked (s : CpuState) (f : Flag) : Checked Bool := Checked.isBit s.cpsr f.position

def setFlagChecked (s : CpuState) (f : Flag) (state : Bool) : Checked CpuState := do
  return { s with cpsr := ← Checked.setBit s.cpsr f.position state }

/-- Size of an instruction of the current instruction set: two less for a short one. -/
def instructionSizeChecked (s : CpuState) : Checked UInt32 := do
  Checked.sub 4 ((← s.isFlagChecked .thumb).toUInt32 <<< 1)

/-- How far the program counter is ahead of the executing instruction. -/
def pipelineOffsetChecked (s : CpuState) : Checked UInt32 := do
  Checked.mul (← s.instructionSizeChecked) 2

/-- Address of the instruction that was fetched last and executes now. -/
def executingChecked (s : CpuState) : Checked UInt32 := do
  return s.pc - (← s.pipelineOffsetChecked)

/-- Whether the flags satisfy an instruction's condition. -/
def holdsChecked (s : CpuState) (condition : Fin 16) : Checked Bool := do
  let flags ← Checked.shiftLeft (1 : UInt16) (s.cpsr >>> 28).toNat
  return conditionMasks.get condition &&& flags != 0

/-! ## Banks -/

/-- The registers of which there is a copy for fast interrupts. -/
def fastRegisters : List Register := [8, 9, 10, 11, 12]

/-- Where the copies of a register are kept. -/
def fastIndex (r : Register) : Checked (Fin 5) := do Checked.index 5 (← Checked.distance r.val 8)

/-- Store registers back into their copies for the current mode. -/
def storeFast (s : CpuState) : List Register → Vector FiqRegister 5 →
    Checked (Vector FiqRegister 5)
  | [], fiqs => return fiqs
  | r :: rest, fiqs => do
    let i ← fastIndex r
    let value := s.reg r
    s.storeFast rest (fiqs.set i
      (if s.mode = .fiq then { fiqs[i] with fiq := value } else { fiqs[i] with shared := value }))

/-- Store the active registers back into the banks of the current mode. -/
def storeBanksChecked (s : CpuState) : Checked CpuState := do
  return { s.storeBanks with fiqs := ← s.storeFast fastRegisters s.fiqs }

/-- Fetch registers from their copies for the current mode. -/
def loadFast (s : CpuState) : List Register → Vector UInt32 16 → Checked (Vector UInt32 16)
  | [], registers => return registers
  | r :: rest, registers => do
    let i ← fastIndex r
    s.loadFast rest (registers.set r (if s.mode = .fiq then s.fiqs[i].fiq else s.fiqs[i].shared))

/-- Fetch the active registers from the banks of the current mode. -/
def loadBanksChecked (s : CpuState) : Checked CpuState := do
  let registers ← s.loadFast fastRegisters s.registers
  return { s with registers }
    |>.setReg Register.sp (s.sp.get s.mode.bank)
    |>.setReg Register.lr (s.lr.get s.mode.bank)

/-- Set the status register, changing the active registers if the mode changes. -/
def setCpsrChecked (s : CpuState) (value : UInt32) : Checked CpuState := do
  let stored ← s.storeBanksChecked
  { stored with cpsr := value }.loadBanksChecked

/-- Set the mode bits of the status register. -/
def setModeChecked (s : CpuState) (m : Mode) : Checked CpuState :=
  s.setCpsrChecked ((s.cpsr &&& ~~~0x1F) ||| m.toBits)

/-- Where a register of a mode is kept while the state is in its current mode. -/
def slotOfChecked (s : CpuState) (m : Mode) (r : Register) : Checked Slot := do
  let current := s.mode
  if 8 ≤ r.val ∧ r.val ≤ 12 ∧ (m == .fiq) != (current == .fiq) then
    return .fiq (← fastIndex r) (m == .fiq)
  else if r = Register.sp ∧ m.bank ≠ current.bank then return .sp m.bank
  else if r = Register.lr ∧ m.bank ≠ current.bank then return .lr m.bank
  else return .active r

/-- A register as another mode sees it. -/
def regInModeChecked (s : CpuState) (m : Mode) (r : Register) : Checked UInt32 := do
  return s.slot (← s.slotOfChecked m r)

/-- Overwrite a register as another mode sees it. The program counter gets no special care. -/
def setRegInModeChecked (s : CpuState) (m : Mode) (r : Register) (value : UInt32) :
    Checked CpuState := do
  return s.setSlot value (← s.slotOfChecked m r)

end CpuState

namespace Exception

/-- Where the exception's vector lies above the vector base. -/
def vectorChecked (e : Exception) : Checked UInt32 := Checked.mul (UInt32.ofNat e.ctorIdx) 4

/-- The modes in which exceptions are handled, in their order. -/
def modes : Vector Mode 8 :=
  #v[.supervisor, .undefined, .supervisor, .abort, .abort, .supervisor, .irq, .fiq]

/-- The mode in which the exception is handled. -/
def modeChecked (e : Exception) : Checked Mode := do
  return modes.get (← Checked.index 8 e.ctorIdx)

end Exception
end Handheld
