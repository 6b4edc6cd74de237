import Handheld.Console.System
import Handheld.Cpu.Core

/-!
# Device registers

The registers of the devices at their addresses, and how an access is spread over the registers
that it touches. Addresses here are offsets from the start of the register area. An access goes
register by register, in ascending order; a byte without a register counts as one of its own.
-/

namespace Handheld.Console

open Word

/-- A device register. -/
inductive IoRegister where
  | divisionControl
  | numerator (high : Bool)
  | denominator (high : Bool)
  | quotient (high : Bool)
  | remainder (high : Bool)
  | squareRootControl
  | squareRootResult
  | squareRootInput (high : Bool)
  | haltControl
  | timerCounter (i : Fin 4)
  | timerControl (i : Fin 4)
  | ipcSync
  | interruptMaster
  | interruptEnable
  | interruptFlags
  | bootFlag
  deriving DecidableEq, Repr

namespace IoRegister

/-- Where a register starts. -/
def base : IoRegister → UInt32
  | divisionControl => 0x280
  | numerator high => if high then 0x294 else 0x290
  | denominator high => if high then 0x29C else 0x298
  | quotient high => if high then 0x2A4 else 0x2A0
  | remainder high => if high then 0x2AC else 0x2A8
  | squareRootControl => 0x2B0
  | squareRootResult => 0x2B4
  | squareRootInput high => if high then 0x2BC else 0x2B8
  | haltControl => 0x301
  | timerCounter i => 0x100 + 4 * UInt32.ofNat i.val
  | timerControl i => 0x102 + 4 * UInt32.ofNat i.val
  | ipcSync => 0x180
  | interruptMaster => 0x208
  | interruptEnable => 0x210
  | interruptFlags => 0x214
  | bootFlag => 0x300

/-- Width of a register. -/
def width : IoRegister → Width
  | haltControl | bootFlag => .byte
  | timerCounter _ | timerControl _ | ipcSync => .half
  | _ => .word

/-- Whether a write reaches the register. -/
def isWritable : IoRegister → Bool
  | quotient _ | remainder _ | squareRootResult => false
  | _ => true

/-- Whether an address belongs to the register. -/
def covers (r : IoRegister) (a : UInt32) : Bool := Address.alignDown a r.width.bytes == r.base

/-- The registers of the math units. -/
def mathRegisters : List IoRegister :=
  [divisionControl, numerator false, numerator true, denominator false, denominator true,
    quotient false, quotient true, remainder false, remainder true, squareRootControl,
    squareRootResult, squareRootInput false, squareRootInput true]

/-- The registers that both processors have. -/
def commonRegisters : List IoRegister :=
  [timerCounter 0, timerControl 0, timerCounter 1, timerControl 1, timerCounter 2,
    timerControl 2, timerCounter 3, timerControl 3, ipcSync, interruptMaster, interruptEnable,
    interruptFlags, bootFlag]

/-- The registers of a processor. -/
def all : Processor → List IoRegister
  | .arm7 => haltControl :: commonRegisters
  | .arm9 => mathRegisters ++ commonRegisters

/-- The register at an address. -/
def at? (p : Processor) (a : UInt32) : Option IoRegister := (all p).find? (·.covers a)

/-- The register at an address that takes writes. -/
def writableAt? (p : Processor) (a : UInt32) : Option IoRegister :=
  (all p).find? fun r => r.isWritable && r.covers a

/-- Where an address lies in the register. -/
def offset (r : IoRegister) (a : UInt32) : UInt32 := a &&& (r.width.bytes - 1)

/-- How many bytes of the register follow an address. -/
def bytesAfter (r : IoRegister) (a : UInt32) : Nat := (r.width.bytes - 1 - r.offset a).toNat

/-- The part of the register that a write covers whose low byte goes to address `a`. -/
def lanesAt (r : IoRegister) (a value mask : UInt32) : Lanes :=
  let shift := r.offset a * 8
  { value := value <<< shift, mask := mask <<< shift }

end IoRegister

/-- One half of a 64-bit register. -/
def halfOf (x : UInt64) (high : Bool) : UInt32 := if high then (x >>> 32).toUInt32 else x.toUInt32

namespace System

/-! ## Single registers -/

/-- The value of a register. -/
def ioValue (s : System) (p : Processor) : IoRegister → UInt32
  | .divisionControl => s.divider.control.toUInt32
  | .numerator high => halfOf s.divider.numerator high
  | .denominator high => halfOf s.divider.denominator high
  | .quotient high => halfOf s.divider.quotient high
  | .remainder high => halfOf s.divider.remainder high
  | .squareRootControl => s.squareRoot.control.toUInt32
  | .squareRootResult => s.squareRoot.result
  | .squareRootInput high => halfOf s.squareRoot.input high
  | .haltControl => 0
  | .timerCounter i => ((s.timers.get p).read i s.queue.now).toUInt32
  | .timerControl i => ((s.timers.get p).readControl i).toUInt32
  | .ipcSync => (s.ipc.read p).toUInt32
  | .interruptMaster => (s.interrupts.get p).master.toNat.toUInt32
  | .interruptEnable => (s.interrupts.get p).enabled
  | .interruptFlags => (s.interrupts.get p).raised
  | .bootFlag => (s.memory.bootFlags.get p).toUInt32

/-- Write a processor's synchronisation register. -/
def writeIpc (s : System) (p : Processor) (lanes : Lanes) : System :=
  let (ipc, raises) := s.ipc.write p lanes
  let s := { s with ipc }
  if raises then s.raise p.other .ipcSync else s

/-- What a write to the power register asks for. -/
inductive PowerRequest where
  | none | halt | sleep (mode : UInt32)

/-- What the power register's value asks for. -/
def powerRequest (value : UInt32) : PowerRequest :=
  match (value &&& 0xFF) >>> 6 with
  | 0 => .none
  | 2 => .halt
  | mode => .sleep mode

/-- Write to a register that belongs to the system alone. The control registers of the math units
and the master switch read their unwritten bytes as zero. -/
def writeIo (s : System) (p : Processor) (lanes : Lanes) (log : Log) :
    IoRegister → System × Log
  | .divisionControl =>
    let divider := s.divider.writeControl (lanes.merge 0).toUInt16
    { s with divider }.startDivision log
  | .numerator high =>
    let numerator := lanes.mergeHalf high s.divider.numerator
    { s with divider := { s.divider with numerator } }.startDivision log
  | .denominator high =>
    let denominator := lanes.mergeHalf high s.divider.denominator
    { s with divider := { s.divider with denominator } }.startDivision log
  | .squareRootControl =>
    let squareRoot := s.squareRoot.writeControl (lanes.merge 0).toUInt16
    { s with squareRoot }.startSquareRoot log
  | .squareRootInput high =>
    let input := lanes.mergeHalf high s.squareRoot.input
    { s with squareRoot := { s.squareRoot with input } }.startSquareRoot log
  | .timerCounter i =>
    ({ s with timers := s.timers.modify p (·.writeReload i lanes) }, log)
  | .timerControl i => s.writeTimerControl p i lanes log
  | .ipcSync => (s.writeIpc p lanes, log)
  | .interruptMaster =>
    ({ s with
       interrupts := s.interrupts.modify p ({ · with master := isBit (lanes.merge 0) 0 }) }, log)
  | .interruptEnable =>
    ({ s with
       interrupts := s.interrupts.modify p fun c =>
        { c with enabled := lanes.merge c.enabled } }, log)
  | .interruptFlags =>
    ({ s with interrupts := s.interrupts.modify p (·.acknowledge lanes.raw) }, log)
  | .bootFlag =>
    let bootFlags := s.memory.bootFlags.modify p (· ||| (lanes.raw.toUInt8 &&& 1))
    ({ s with memory := { s.memory with bootFlags } }, log)
  | .haltControl | .quotient _ | .remainder _ | .squareRootResult => (s, log)

end System

/-! ## Accesses -/

open BoardM

/-- Write a register. The power register acts on the processor. -/
def writeRegister (p : Processor) (lanes : Lanes) (r : IoRegister) : BoardM System Unit := do
  match r with
  | .haltControl =>
    match System.powerRequest lanes.raw with
    | .none => return
    | .halt =>
      report .haltedByPowerControl
      updateCpu ({ · with isHalted := true })
    | .sleep mode =>
      -- There is no hardware to wake up from sleep, so it halts.
      report (.powerMode mode)
      updateCpu ({ · with isHalted := true })
  | _ => fun b =>
    let (system, log) := b.system.writeIo p lanes b.log r
    ((), { b with system, log })

/-- Read the `left` last bytes of an access, the first of them at address `a` and, as part of the
value, at bit `shift`. The next `skip` bytes were read together with the one before them. -/
def readIoFrom (p : Processor) :
    (left skip : Nat) → (a shift total : UInt32) → BoardM System UInt32
  | 0, _, _, _, total => return total
  | left + 1, skip + 1, a, shift, total => readIoFrom p left skip (a + 1) (shift + 8) total
  | left + 1, 0, a, shift, total => do
    match IoRegister.at? p a with
    | none =>
      report (.unknownIoRead p a)
      readIoFrom p left 0 (a + 1) (shift + 8) total
    | some r =>
      let value ← ask (·.ioValue p r)
      let part := (value >>> (r.offset a * 8)) <<< shift
      readIoFrom p left (r.bytesAfter a) (a + 1) (shift + 8) (total ||| part)

/-- Read device registers. -/
def readIo (p : Processor) (w : Width) (address : UInt32) : BoardM System UInt32 := do
  return w.truncate (← readIoFrom p w.bytes.toNat 0 (address &&& 0xFFFFFF) 0 0)

/-- Write the `left` last bytes of an access, the low ones of `value` as far as `mask` covers them,
from address `a` on. The next `skip` bytes were written together with the one before them. -/
def writeIoFrom (p : Processor) :
    (left skip : Nat) → (a value mask : UInt32) → BoardM System Unit
  | 0, _, _, _, _ => return
  | left + 1, skip + 1, a, value, mask =>
    writeIoFrom p left skip (a + 1) (value >>> 8) (mask >>> 8)
  | left + 1, 0, a, value, mask => do
    match IoRegister.writableAt? p a with
    | none =>
      report (.unknownIoWrite p a value)
      writeIoFrom p left 0 (a + 1) (value >>> 8) (mask >>> 8)
    | some r =>
      writeRegister p (r.lanesAt a value mask) r
      writeIoFrom p left (r.bytesAfter a) (a + 1) (value >>> 8) (mask >>> 8)

/-- Write device registers. -/
def writeIo (p : Processor) (w : Width) (address value : UInt32) : BoardM System Unit :=
  writeIoFrom p w.bytes.toNat 0 (address &&& 0xFFFFFF) value (w.truncate 0xFFFFFFFF)

end Handheld.Console
