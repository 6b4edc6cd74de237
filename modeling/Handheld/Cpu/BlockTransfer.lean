import Handheld.Cpu.Core

/-!
# Block transfers

Loading and storing a list of registers, with the base register moved past the block. Long and
short instructions share it. The lowest register always goes with the lowest address.
-/

namespace Handheld

open Word

/-- What a block transfer does besides its base and list. -/
structure BlockTransfer where
  /-- Load or store. -/
  load : Bool
  /-- Move the address before each transfer, not after. -/
  pre : Bool
  /-- Ascend, not descend. -/
  up : Bool
  /-- Leave the base register behind the block. -/
  writeback : Bool
  /-- Transfer the registers of user mode; a load of the program counter restores the status
  instead. -/
  statusBit : Bool
  deriving DecidableEq, Repr

namespace BlockTransfer

/-- The base register's value behind a block of `count` words. -/
def newBase (t : BlockTransfer) (base : UInt32) (count : Nat) : UInt32 :=
  Address.move base (4 * UInt32.ofNat count) t.up

/-- The lowest address of a block of `count` words. -/
def lowest (t : BlockTransfer) (base : UInt32) (count : Nat) : UInt32 :=
  match t.pre, t.up with
  | false, true => base
  | true, true => base + 4
  | false, false => base - 4 * UInt32.ofNat count + 4
  | true, false => base - 4 * UInt32.ofNat count

/-- Whether the registers of user mode are transferred in place of the current mode's. -/
def userBank (t : BlockTransfer) (list : List Register) : Bool :=
  t.statusBit && !(t.load && list.contains Register.pc)

/-- Whether the base register ends behind the block. A store always moves it. A load of the
base itself keeps the loaded value on ARMv4; on ARMv5 only if the base is the last of several
registers. -/
def movesBase (t : BlockTransfer) (isV5 : Bool) (n : Register) (list : List Register) : Bool :=
  t.writeback &&
    (!t.load || !list.contains n || (isV5 && (list.length == 1 || list.getLast? != some n)))

end BlockTransfer

namespace Core

open MachineM

variable {σ : Type} (core : Core σ)

/-- A transfer of no registers moves the base by the size of a full block; ARMv4 transfers the
program counter. -/
def transferNothing (n : Register) (t : BlockTransfer) : MachineM σ Unit := do
  let base ← reg n
  core.setReg n (Address.move base 0x40 t.up)
  if !core.processor.isV5 then
    let address :=
      match t.up, t.pre with
      | true, true => base + 4
      | true, false => base
      | false, true => base - 0x40
      | false, false => base - 0x3C
    if t.load then
      core.jump (← core.load .word address Access.nonSequential)
    else
      core.store .word address (← view fun s => s.pc + s.instructionSize) Access.nonSequential

/-- The value that a block store writes for a register. On ARMv4 the base is written as it will
be after the transfer, unless it is the first of the list. -/
def storedValue (n : Register) (first : Option Register) (newBase : UInt32) (userBank : Bool)
    (r : Register) (s : CpuState) : UInt32 :=
  if r = n && first != some r && !core.processor.isV5 then newBase
  else if r = Register.pc then s.lateReg r
  else if userBank then s.regInMode .user r
  else s.reg r

/-- Store the registers to ascending addresses. -/
def storeBlock (value : Register → CpuState → UInt32) :
    List Register → UInt32 → Access → MachineM σ Unit
  | [], _, _ => return
  | r :: list, address, access => do
    core.store .word address (← view (value r)) access
    storeBlock value list (address + 4) Access.sequential

/-- Load the registers from ascending addresses. The program counter is not written but
returned. -/
def loadBlock (userBank : Bool) :
    List Register → UInt32 → Access → MachineM σ (Option UInt32)
  | [], _, _ => return none
  | r :: list, address, access => do
    let value ← core.load .word address access
    if r = Register.pc then
      let _ ← loadBlock userBank list (address + 4) Access.sequential
      return some value
    else
      change fun s => if userBank then s.setRegInMode .user r value else s.setReg r value
      loadBlock userBank list (address + 4) Access.sequential

/-- Load or store a list of registers. -/
def blockTransfer (n : Register) (set : UInt16) (t : BlockTransfer) : MachineM σ Unit := do
  let list := Register.ofSet set
  if list.isEmpty then
    core.transferNothing n t
    if t.load then idle else setAccess Access.nonSequential
  else
    let base ← reg n
    let newBase := t.newBase base list.length
    let lowest := t.lowest base list.length
    let userBank := t.userBank list
    let target ←
      if t.load then core.loadBlock userBank list lowest Access.nonSequential
      else do
        core.storeBlock (core.storedValue n list.head? newBase userBank) list lowest
          Access.nonSequential
        pure none
    if t.movesBase core.processor.isV5 n list then putReg n newBase
    if t.load then idle else setAccess Access.nonSequential
    match target with
    | none => return
    | some address =>
      if t.statusBit then
        change fun s => s.setCpsr s.savedStatus
        core.jump address
      else
        core.setLoaded Register.pc address

end Core
end Handheld
