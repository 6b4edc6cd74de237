import Handheld.Checked.State
import Handheld.Cpu.BlockTransfer

/-!
# A processor core with checked ranges

The steps out of which instructions are put together, by operators that check their ranges: a core
that stops where the result of an operation on its words leaves its type. What calculates nothing
but sums and differences of addresses, which wrap around, is run as it is. So is the clock, whose
words are wider.
-/

namespace Handheld

open Word MachineM

variable {σ α : Type}

/-- What a core does that stops where a result leaves its range. -/
abbrev CheckedM (σ : Type) := StateT (Machine σ) Checked

namespace CheckedM

/-- What evaluates nothing that could leave its range. -/
def run (act : MachineM σ α) : CheckedM σ α := fun m => .ok (act m)

/-- A value of the processor's state, if it is in its range. -/
def evaluate (f : CpuState → Checked α) : CheckedM σ α := fun m => do return (← f m.cpu, m)

/-- A change of the processor's state, if it stays in its range. -/
def alter (f : CpuState → Checked CpuState) : CheckedM σ Unit := fun m => do
  return ((), { m with cpu := ← f m.cpu })

end CheckedM

namespace Core

open CheckedM

variable (core : Core σ)

/-! ## Memory -/

/-- Load a value. On ARMv4 a halfword at an odd address arrives rotated by one byte. -/
def loadChecked (w : Width) (address : UInt32) (access : Access) : CheckedM σ UInt32 := do
  run (core.wait w address access)
  let value ← run (core.peek w address)
  let odd ← Checked.isBit address 0
  return if !core.processor.isV5 && w == .half && odd then rotateRight value 8 else value

/-- Load a word; a misaligned address rotates the word around it. -/
def loadRotatedChecked (address : UInt32) (access : Access) : CheckedM σ UInt32 := do
  return rotateRight (← core.loadChecked .word address access) ((address &&& 3) <<< 3)

/-- Load a signed halfword. On ARMv4 an odd address gives its byte instead. -/
def loadSignedHalfChecked (address : UInt32) (access : Access) : CheckedM σ UInt32 := do
  run (core.wait .half address access)
  let value ← run (core.peek .half address)
  let odd ← Checked.isBit address 0
  return if !core.processor.isV5 && odd then signExtend8 (value >>> 8) else signExtend16 value

/-- Load a signed byte. -/
def loadSignedByteChecked (address : UInt32) (access : Access) : CheckedM σ UInt32 := do
  return signExtend8 (← core.loadChecked .byte address access)

/-! ## Jumps -/

/-- Width of an instruction of the current instruction set. -/
def instructionWidthChecked (s : CpuState) : Checked Width := do
  return if ← s.isFlagChecked .thumb then .half else .word

/-- Pay for filling the pipeline from the current address on. -/
def refillChecked : CheckedM σ Unit := do
  let w ← evaluate instructionWidthChecked
  run do
    core.wait w (← view (·.pc)) (Access.nonSequential ||| Access.code)
    change (·.bumpPc w.bytes)
    core.wait w (← view (·.pc)) (Access.sequential ||| Access.code)
    change ({ · with pipelineValid := false, accessType := Access.sequential })

/-- Jump to an address, rounded down to an instruction of the current set. -/
def jumpChecked (address : UInt32) : CheckedM σ Unit := do
  let size ← evaluate (·.instructionSizeChecked)
  let target ← Address.alignDownChecked address size
  run (change (·.setReg Register.pc target))
  core.refillChecked

/-- Jump by an offset from the program counter. -/
def jumpByChecked (offset : Int32) : CheckedM σ Unit := do
  core.jumpChecked (Address.displace (← run (view (·.pc))) offset)

/-- Jump into the instruction set that bit 0 of the address names. -/
def exchangeChecked (address : UInt32) : CheckedM σ Unit := do
  let thumb ← Checked.isBit address 0
  alter (·.setFlagChecked .thumb thumb)
  core.jumpChecked address

/-- Overwrite a register; the program counter is jumped to. -/
def setRegChecked (r : Register) (value : UInt32) : CheckedM σ Unit :=
  if r = Register.pc then core.jumpChecked value else run (putReg r value)

/-- Overwrite a register by a loaded value; on ARMv5 a loaded program counter names the
instruction set, too. -/
def setLoadedChecked (r : Register) (value : UInt32) : CheckedM σ Unit :=
  if r = Register.pc then
    if core.processor.isV5 then core.exchangeChecked value else core.jumpChecked value
  else run (putReg r value)

/-! ## Fetching -/

/-- Read the two prefetched opcodes if a jump has made them stale. -/
def revalidateChecked : CheckedM σ Unit := do
  if !(← run (view (·.pipelineValid))) then
    let w ← evaluate instructionWidthChecked
    run do
      let pc ← view (·.pc)
      let first ← core.peek w (pc - w.bytes)
      let second ← core.peek w pc
      let pipeline := (Vector.singleton first).push second
      change ({ · with pipeline, pipelineValid := true })

/-- Skip an opcode without meaning. -/
def skipUnknownChecked (inst : UInt32) : CheckedM σ Unit := do
  run (note (.unknownOpcode core.processor inst (← evaluate (·.executingChecked))))

/-! ## Exceptions -/

/-- The state of a processor that has entered an exception, but for the program counter. -/
def enterChecked (e : Exception) (s : CpuState) : Checked CpuState := do
  let s := if ← s.isFlagChecked .thumb then s.bumpPc 2 else s
  let status := s.cpsr
  let s ← s.setModeChecked (← e.modeChecked)
  let s ← s.setFlagChecked .thumb false
  let s ← s.setFlagChecked .irqDisable true
  let s ← if e.masksFast then s.setFlagChecked .fiqDisable true else pure s
  let s := s.setReg Register.lr (s.pc - (← s.instructionSizeChecked))
  return s.setSavedStatus status

/-- Enter an exception: switch to its mode and to long instructions, mask interrupts, keep the
return address and the old status, and jump to the vector. -/
def raiseChecked (e : Exception) : CheckedM σ Unit := do
  run (onBoard (core.onException e))
  alter (enterChecked e)
  let base ← run (ask core.vectorBase)
  core.jumpChecked (base + (← e.vectorChecked))

/-- Take an interrupt if one is raised and not masked. Tells whether it did. -/
def takeInterruptChecked : CheckedM σ Bool := do
  let pending ← run (ask fun system => (core.interrupts system).shouldInterrupt)
  if pending && !(← evaluate (·.isFlagChecked .irqDisable)) then
    run do
      note (.takingIrq core.processor)
      change (·.bumpPc 4)
    core.raiseChecked .interruptRequest
    return true
  else
    return false

/-- A software interrupt, which the system may serve natively. -/
def softwareInterruptChecked (comment : UInt8) : CheckedM σ Unit := do
  core.raiseChecked .softwareInterrupt
  match ← run (onBoard (core.nativeCall comment)) with
  | none => return
  | some cycles =>
    run (tick cycles)
    let target ← run (reg Register.lr)
    alter fun s => s.setCpsrChecked s.savedStatus
    core.jumpChecked target

/-! ## Block transfers -/

/-- A transfer of no registers. On ARMv4 the program counter is stored an instruction further on,
and this sum does not wrap around. -/
def transferNothingChecked (n : Register) (t : BlockTransfer) : CheckedM σ Unit := do
  let base ← run (reg n)
  core.setRegChecked n (Address.move base 0x40 t.up)
  if !core.processor.isV5 then
    let address :=
      match t.up, t.pre with
      | true, true => base + 4
      | true, false => base
      | false, true => base - 0x40
      | false, false => base - 0x3C
    if t.load then
      core.jumpChecked (← core.loadChecked .word address Access.nonSequential)
    else
      let value ← evaluate fun s => do Checked.add s.pc (← s.instructionSizeChecked)
      run (core.store .word address value Access.nonSequential)

/-- Number of zero bits above the highest set bit, 16 for zero. -/
def leadingZeros16 (x : UInt16) : Nat := if x = 0 then 16 else 15 - x.toNat.log2

/-- Those registers of a list whose bits are set. -/
def selectChecked (set : UInt16) : List Register → Checked (List Register)
  | [] => return []
  | r :: rest => do
    let selected ← selectChecked set rest
    return if ← Checked.isBit set r.val then r :: selected else selected

/-- The value that a block store writes for a register. -/
def storedValueChecked (n : Register) (first : Option Register) (newBase : UInt32)
    (userBank : Bool) (r : Register) (s : CpuState) : Checked UInt32 :=
  if r = n && first != some r && !core.processor.isV5 then return newBase
  else if r = Register.pc then return s.lateReg r
  else if userBank then s.regInModeChecked .user r
  else return s.reg r

/-- Store the registers to ascending addresses. -/
def storeBlockChecked (value : Register → CpuState → Checked UInt32) :
    List Register → UInt32 → Access → CheckedM σ Unit
  | [], _, _ => return
  | r :: list, address, access => do
    run (core.store .word address (← evaluate (value r)) access)
    storeBlockChecked value list (address + 4) Access.sequential

/-- Load the registers from ascending addresses. The program counter is not written but
returned. -/
def loadBlockChecked (userBank : Bool) :
    List Register → UInt32 → Access → CheckedM σ (Option UInt32)
  | [], _, _ => return none
  | r :: list, address, access => do
    let value ← core.loadChecked .word address access
    if r = Register.pc then
      let _ ← loadBlockChecked userBank list (address + 4) Access.sequential
      return some value
    else
      alter fun s =>
        if userBank then s.setRegInModeChecked .user r value else return s.setReg r value
      loadBlockChecked userBank list (address + 4) Access.sequential

/-- Load or store a list of registers. -/
def blockTransferChecked (n : Register) (set : UInt16) (t : BlockTransfer) : CheckedM σ Unit := do
  if set = 0 then
    core.transferNothingChecked n t
    run (if t.load then idle else setAccess Access.nonSequential)
  else
    let base ← run (reg n)
    let list ← selectChecked set (List.finRange 16)
    let size ← Checked.mul (UInt32.ofNat list.length) 4
    let last ← Checked.distance 15 (leadingZeros16 set)
    let newBase := Address.move base size t.up
    let lowest :=
      match t.pre, t.up with
      | false, true => base
      | true, true => base + 4
      | false, false => base - size + 4
      | true, false => base - size
    let userBank := t.statusBit && !(t.load && (← Checked.isBit set 15))
    let target ←
      if t.load then core.loadBlockChecked userBank list lowest Access.nonSequential
      else do
        core.storeBlockChecked (core.storedValueChecked n list.head? newBase userBank) list lowest
          Access.nonSequential
        pure none
    let baseListed ← Checked.isBit set n.val
    let keepsBase := core.processor.isV5 && (list.length == 1 || last != n.val)
    if t.writeback && (!t.load || !baseListed || keepsBase) then run (putReg n newBase)
    run (if t.load then idle else setAccess Access.nonSequential)
    match target with
    | none => return
    | some address =>
      if t.statusBit then
        alter fun s => s.setCpsrChecked s.savedStatus
        core.jumpChecked address
      else
        core.setLoadedChecked Register.pc address

end Core
end Handheld
