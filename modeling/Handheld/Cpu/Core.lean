import Handheld.Cpu.Interrupt
import Handheld.Cpu.State
import Handheld.Log

/-!
# A processor core on its bus

A core is a processor version together with the callbacks through which it reaches the system
around it. The callbacks act on a `Board`: the processor's state, the system and the log. One
instruction runs on a `Machine`, a board with the time that the instruction has taken so far,
which the callbacks cannot touch.

This module holds the steps out of which instructions are put together: memory access with its
cost, writes to registers, jumps, and the prefetched opcodes. The pipeline is faked: a jump pays
for two fetches, and the two opcodes are read, free of charge, before the next instruction.
-/

namespace Handheld

open Word Address

/-- Width of a memory access. -/
inductive Width where
  | byte | half | word
  deriving DecidableEq, Repr, Inhabited

namespace Width

/-- Number of bytes. -/
def bytes : Width → UInt32
  | byte => 1
  | half => 2
  | word => 4

/-- The low part of a word that an access of this width carries. -/
def truncate : Width → UInt32 → UInt32
  | byte, x => x &&& 0xFF
  | half, x => x &&& 0xFFFF
  | word, x => x

/-- Place among the widths: 0, 1, 2. -/
def rank (w : Width) : Fin 3 := ⟨w.ctorIdx, by cases w <;> decide⟩

end Width

/-- A processor's state, the system around it and the log. -/
structure Board (σ : Type) where
  cpu : CpuState
  system : σ
  log : Log

/-- A board while an instruction runs, and the cycles it has taken. -/
structure Machine (σ : Type) extends Board σ where
  cycles : UInt64 := 0

/-- What the system does when the core calls it. -/
abbrev BoardM (σ : Type) := StateM (Board σ)

/-- What the core does while it executes. -/
abbrev MachineM (σ : Type) := StateM (Machine σ)

namespace BoardM

variable {σ : Type}

/-- A reading of the system. -/
def ask {α : Type} (f : σ → α) : BoardM σ α := fun b => (f b.system, b)

/-- A change of the system. -/
def update (f : σ → σ) : BoardM σ Unit := fun b => ((), { b with system := f b.system })

/-- A change of the processor's state. -/
def updateCpu (f : CpuState → CpuState) : BoardM σ Unit := fun b => ((), { b with cpu := f b.cpu })

/-- Append to the log. -/
def report (entry : LogEntry) : BoardM σ Unit := fun b => ((), { b with log := b.log.add entry })

/-- Read a register of the system control coprocessor where there is none. -/
def absentControlRead (cn cm cp : UInt32) : BoardM σ UInt32 := do
  report (.absentControlRead cn cm cp)
  return 0

/-- Write a register of the system control coprocessor where there is none. -/
def absentControlWrite (cn cm cp value : UInt32) : BoardM σ Unit :=
  report (.absentControlWrite cn cm cp value)

end BoardM

/-- A processor version and the callbacks to the system around it. -/
structure Core (σ : Type) where
  processor : Processor
  /-- The value at an address. -/
  read : Width → UInt32 → BoardM σ UInt32
  /-- Store a value at an address. -/
  write : Width → UInt32 → UInt32 → BoardM σ Unit
  /-- Cycles that an access takes. -/
  waitTime : Width → UInt32 → Access → BoardM σ UInt16
  /-- The interrupt registers. -/
  interrupts : σ → InterruptController
  /-- Where the exception vectors start. -/
  vectorBase : σ → UInt32 := fun _ => 0
  /-- An exception is about to be taken. -/
  onException : Exception → BoardM σ Unit := fun _ => pure ()
  /-- Serve a software interrupt natively, after the core has entered it. Gives the cycles it
  took, or nothing if the vector is to be run instead. -/
  nativeCall : UInt8 → BoardM σ (Option UInt64) := fun _ => pure none
  /-- Read a register of the system control coprocessor. -/
  controlRead : (cn cm cp : UInt32) → BoardM σ UInt32 := BoardM.absentControlRead
  /-- Write a register of the system control coprocessor. -/
  controlWrite : (cn cm cp value : UInt32) → BoardM σ Unit := BoardM.absentControlWrite

namespace MachineM

variable {σ : Type} {α : Type}

/-- Let the system act on the board. -/
def onBoard (act : BoardM σ α) : MachineM σ α := fun m =>
  let (a, board) := act m.toBoard
  (a, { m with toBoard := board })

/-- A reading of the system around the core. -/
def ask (f : σ → α) : MachineM σ α := fun m => (f m.system, m)

/-- A reading of the processor's state. -/
def view (f : CpuState → α) : MachineM σ α := fun m => (f m.cpu, m)

/-- A change of the processor's state. -/
def change (f : CpuState → CpuState) : MachineM σ Unit := fun m => ((), { m with cpu := f m.cpu })

/-- Let time pass. -/
def tick (cycles : UInt64) : MachineM σ Unit := fun m => ((), { m with cycles := m.cycles + cycles })

/-- Append to the log. -/
def note (entry : LogEntry) : MachineM σ Unit := onBoard (BoardM.report entry)

/-- A register of the current mode. -/
def reg (r : Register) : MachineM σ UInt32 := view (·.reg r)

/-- Overwrite a register of the current mode without special care for the program counter. -/
def putReg (r : Register) (value : UInt32) : MachineM σ Unit := change (·.setReg r value)

/-- A register that short instructions reach. -/
def low (r : LowRegister) : MachineM σ UInt32 := view (·.low r)

def putLow (r : LowRegister) (value : UInt32) : MachineM σ Unit := change (·.setLow r value)

def setFlag (f : Flag) (state : Bool) : MachineM σ Unit := change (·.setFlag f state)

def setAccess (access : Access) : MachineM σ Unit := change ({ · with accessType := access })

/-- An internal cycle, after which the next fetch is not sequential. -/
def idle : MachineM σ Unit := do
  tick 1
  setAccess Access.nonSequential

end MachineM

namespace Core

open MachineM

variable {σ : Type} (core : Core σ)

/-! ## Memory -/

/-- Let the time of an access pass. -/
def wait (w : Width) (address : UInt32) (access : Access) : MachineM σ Unit := do
  tick (← onBoard (core.waitTime w address access)).toUInt64

/-- The value at an address, free of charge. -/
def peek (w : Width) (address : UInt32) : MachineM σ UInt32 := do
  return w.truncate (← onBoard (core.read w address))

/-- Load a value. On ARMv4 a halfword at an odd address arrives rotated by one byte. -/
def load (w : Width) (address : UInt32) (access : Access) : MachineM σ UInt32 := do
  core.wait w address access
  let value ← core.peek w address
  return if !core.processor.isV5 && w == .half && isBit address 0 then rotateRight value 8
    else value

/-- Store a value. -/
def store (w : Width) (address value : UInt32) (access : Access) : MachineM σ Unit := do
  core.wait w address access
  onBoard (core.write w address (w.truncate value))

/-- Load a word; a misaligned address rotates the word around it. -/
def loadRotated (address : UInt32) (access : Access) : MachineM σ UInt32 := do
  return rotateRight (← core.load .word address access) ((address &&& 3) <<< 3)

/-- Load a signed halfword. On ARMv4 an odd address gives its byte instead. -/
def loadSignedHalf (address : UInt32) (access : Access) : MachineM σ UInt32 := do
  core.wait .half address access
  let value ← core.peek .half address
  return if !core.processor.isV5 && isBit address 0 then signExtend8 (value >>> 8)
    else signExtend16 value

/-- Load a signed byte. -/
def loadSignedByte (address : UInt32) (access : Access) : MachineM σ UInt32 := do
  return signExtend8 (← core.load .byte address access)

/-! ## Jumps -/

/-- Width of an instruction of the current instruction set. -/
def instructionWidth (s : CpuState) : Width := if s.isFlag .thumb then .half else .word

/-- Pay for filling the pipeline from the current address on. -/
def refill : MachineM σ Unit := do
  let w ← view instructionWidth
  core.wait w (← view (·.pc)) (Access.nonSequential ||| Access.code)
  change (·.bumpPc w.bytes)
  core.wait w (← view (·.pc)) (Access.sequential ||| Access.code)
  change ({ · with pipelineValid := false, accessType := Access.sequential })

/-- Jump to an address, rounded down to an instruction of the current set. -/
def jump (address : UInt32) : MachineM σ Unit := do
  change fun s => s.setReg Register.pc (alignDown address s.instructionSize)
  core.refill

/-- Jump by an offset from the program counter. -/
def jumpBy (offset : Int32) : MachineM σ Unit := do
  core.jump (displace (← view (·.pc)) offset)

/-- Jump into the instruction set that bit 0 of the address names. -/
def exchange (address : UInt32) : MachineM σ Unit := do
  setFlag .thumb (isBit address 0)
  core.jump address

/-- Overwrite a register; the program counter is jumped to. -/
def setReg (r : Register) (value : UInt32) : MachineM σ Unit :=
  if r = Register.pc then core.jump value else putReg r value

/-- Overwrite a register by a loaded value; on ARMv5 a loaded program counter names the
instruction set, too. -/
def setLoaded (r : Register) (value : UInt32) : MachineM σ Unit :=
  if r = Register.pc then
    if core.processor.isV5 then core.exchange value else core.jump value
  else putReg r value

/-! ## Fetching -/

/-- Read the two prefetched opcodes if a jump has made them stale. -/
def revalidate : MachineM σ Unit := do
  if !(← view (·.pipelineValid)) then
    let pc ← view (·.pc)
    let w ← view instructionWidth
    let first ← core.peek w (pc - w.bytes)
    let second ← core.peek w pc
    change ({ · with pipeline := #v[first, second], pipelineValid := true })

/-- Fetch one more opcode and take the oldest one out of the pipeline. -/
def fetch (w : Width) : MachineM σ UInt32 := do
  change (·.bumpPc w.bytes)
  let pc ← view (·.pc)
  core.wait w pc ((← view (·.accessType)) ||| Access.code)
  let incoming ← core.peek w pc
  let inst ← view (·.advancePipeline incoming |>.1)
  change (·.advancePipeline incoming |>.2)
  return inst

/-- Skip an opcode without meaning. -/
def skipUnknown (inst : UInt32) : MachineM σ Unit := do
  note (.unknownOpcode core.processor inst (← view (·.executing)))

/-! ## Exceptions -/

/-- Enter an exception: switch to its mode and to long instructions, mask interrupts, keep the
return address and the old status, and jump to the vector. -/
def raise (e : Exception) : MachineM σ Unit := do
  onBoard (core.onException e)
  change fun s => if s.isFlag .thumb then s.bumpPc 2 else s
  let status ← view (·.cpsr)
  change fun s =>
    let s := ((s.setMode e.mode).setFlag .thumb false).setFlag .irqDisable true
    if e.masksFast then s.setFlag .fiqDisable true else s
  change fun s => s.setReg Register.lr (s.pc - s.instructionSize)
  change (·.setSavedStatus status)
  let base ← ask core.vectorBase
  core.jump (base + e.vector)

/-- Take an interrupt if one is raised and not masked. Tells whether it did. -/
def takeInterrupt : MachineM σ Bool := do
  let pending ← ask fun system => (core.interrupts system).shouldInterrupt
  if pending && !(← view (·.isFlag .irqDisable)) then
    note (.takingIrq core.processor)
    change (·.bumpPc 4)
    core.raise .interruptRequest
    return true
  else
    return false

/-- A software interrupt. If the system serves it natively, the core returns to the caller right
away as the firmware would. -/
def softwareInterrupt (comment : UInt8) : MachineM σ Unit := do
  core.raise .softwareInterrupt
  match ← onBoard (core.nativeCall comment) with
  | none => return
  | some cycles =>
    tick cycles
    let target ← reg Register.lr
    change fun s => s.setCpsr s.savedStatus
    core.jump target

/-! ## Multiplication -/

/-- Further cycles of a multiplication: one for each step in which the multiplier, stripped of
ever more low bytes by the mask, is not yet used up. A signed multiplier is used up, too, when
only copies of its sign are left. -/
def multiplierSteps (isSigned : Bool) : Nat → UInt32 → UInt32 → Nat
  | 0, _, _ => 0
  | n + 1, multiplier, mask =>
    let rest := multiplier &&& mask
    if rest == 0 || (isSigned && rest == mask) then 0
    else 1 + multiplierSteps isSigned n rest (mask <<< 8)

/-- Further cycles of a multiplication. The fourth mask is empty and ends the count. -/
def multiplierCycles (multiplier : UInt32) (isSigned : Bool) : Nat :=
  multiplierSteps isSigned 4 multiplier 0xFFFFFF00

/-- Let the time of a multiplication pass. -/
def multiplyIdle (multiplier : UInt32) (isSigned : Bool) : MachineM σ Unit := do
  idle
  tick (multiplierCycles multiplier isSigned).toUInt64

end Core
end Handheld
