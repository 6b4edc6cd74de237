import Handheld.Console.Bus
import Handheld.Console.Firmware.Checksum

/-!
# Firmware calls

The software interrupts that are served natively. A call finds its arguments in r0 to r3 and
leaves its results there; the processor is already in supervisor mode.
-/

namespace Handheld.Console.Firmware

open Word BoardM

/-- A function of the firmware. -/
inductive Call where
  | waitByLoop | intrWait | vBlankIntrWait | halt | sleep | soundBias | div | cpuSet | cpuFastSet
  | sqrt | getCrc16 | isDebugger | getSineTable
  deriving DecidableEq, Repr

namespace Call

/-- The function of a number. -/
def ofNumber? (number : UInt8) : Option Call :=
  match number.toNat with
  | 0x03 => some waitByLoop
  | 0x04 => some intrWait
  | 0x05 => some vBlankIntrWait
  | 0x06 => some halt
  | 0x07 => some sleep
  | 0x08 => some soundBias
  | 0x09 => some div
  | 0x0B => some cpuSet
  | 0x0C => some cpuFastSet
  | 0x0D => some sqrt
  | 0x0E => some getCrc16
  | 0x0F => some isDebugger
  | 0x1A => some getSineTable
  | _ => none

/-- Whether only the companion processor has the function. -/
def isArm7Only (c : Call) : Bool := c matches sleep | soundBias | getSineTable

/-- The function that a processor has under a number. -/
def of? (p : Processor) (number : UInt8) : Option Call :=
  (ofNumber? number).filter fun c => p == .arm7 || !c.isArm7Only

/-- The function's name in log lines. -/
def name : Call → String
  | waitByLoop => "WaitByLoop"
  | intrWait => "IntrWait"
  | vBlankIntrWait => "VBlankIntrWait"
  | halt => "Halt"
  | sleep => "Sleep"
  | soundBias => "SoundBias"
  | div => "Div"
  | cpuSet => "CpuSet"
  | cpuFastSet => "CpuFastSet"
  | sqrt => "Sqrt"
  | getCrc16 => "GetCrc16"
  | isDebugger => "IsDebugger"
  | getSineTable => "GetSineTable"

end Call

/-- Cycles of a function that does little or does not exist. -/
def fallbackCycles : UInt64 := 4

/-- The first quarter of a sine wave, scaled to 0x7FFF. -/
def sineTable : Vector UInt16 64 :=
  #v[0x0000, 0x0324, 0x0648, 0x096A, 0x0C8C, 0x0FAB, 0x12C8, 0x15E2, 0x18F9, 0x1C0B, 0x1F1A,
    0x2223, 0x2528, 0x2826, 0x2B1F, 0x2E11, 0x30FB, 0x33DF, 0x36BA, 0x398C, 0x3C56, 0x3F17,
    0x41CE, 0x447A, 0x471C, 0x49B4, 0x4C3F, 0x4EBF, 0x5133, 0x539B, 0x55F5, 0x5842, 0x5A82,
    0x5CB3, 0x5ED7, 0x60EB, 0x62F1, 0x64E8, 0x66CF, 0x68A6, 0x6A6D, 0x6C23, 0x6DC9, 0x6F5E,
    0x70E2, 0x7254, 0x73B5, 0x7504, 0x7641, 0x776B, 0x7884, 0x7989, 0x7A7C, 0x7B5C, 0x7C29,
    0x7CE3, 0x7D89, 0x7E1D, 0x7E9C, 0x7F09, 0x7F61, 0x7FA6, 0x7FD8, 0x7FF5]

/-! ## Single functions -/

/-- The processor halts. -/
def halt : BoardM System Unit := updateCpu ({ · with isHalted := true })

/-- A register of the calling processor. -/
def argument (r : Register) : BoardM System UInt32 := fun b => (b.cpu.reg r, b)

/-- Overwrite a register of the calling processor. -/
def result (r : Register) (value : UInt32) : BoardM System Unit := updateCpu (·.setReg r value)

/-- Wait for one of the interrupts in `flags`, forgetting those that were raised before if told
to. Interrupts are let through; the processor halts until any of them arrives. -/
def waitForInterrupt (p : Processor) (forget : Bool) (flags : UInt32) : BoardM System UInt64 := do
  update fun s =>
    { s with
      interrupts := s.interrupts.modify p fun c =>
        let c := { c with master := true }
        if forget then c.acknowledge flags else c }
  if (← ask fun s => (s.interrupts.get p).raised &&& flags) == 0 then
    report (.waitingForInterrupts p flags)
    halt
  return 16

/-- Quotient and remainder. A zero divisor gives one of the wrong sign. -/
def divide (n d : Int32) : Int32 × Int32 :=
  if d = 0 then (if n < 0 then 1 else -1, n) else (n / d, n % d)

/-- Copy `count` units, or fill with the first one. -/
def copyUnits (p : Processor) (w : Width) (fill : Bool) :
    (count : Nat) → (source target : UInt32) → BoardM System Unit
  | 0, _, _ => return
  | count + 1, source, target => do
    let value ← read p w source
    write p w target value
    copyUnits p w fill count (if fill then source else source + w.bytes) (target + w.bytes)

/-- Number of units that a control word asks for; the fast function works in blocks of eight. -/
def unitCount (control : UInt32) (fast : Bool) : UInt32 :=
  let count := control &&& 0x1FFFFF
  if fast then (count + 7) &&& ~~~7 else count

/-- Copy or fill memory: bit 24 of the control word asks to fill, bit 26 for words. The fast
function always takes words. -/
def setMemory (p : Processor) (fast : Bool) : BoardM System UInt64 := do
  let source ← argument 0
  let target ← argument 1
  let control ← argument 2
  let w : Width := if fast || isBit control 26 then .word else .half
  let count := unitCount control fast
  copyUnits p w (isBit control 24) count.toNat source target
  return count.toUInt64 * 2 + 20

/-- The checksum of `count` bytes of memory, on top of an earlier one. -/
def checksumFrom (p : Processor) : (count : Nat) → (address : UInt32) → (crc : UInt16) →
    BoardM System UInt16
  | 0, _, crc => return crc
  | count + 1, address, crc => do
    let byte ← read p .byte address
    checksumFrom p count (address + 1) (checksumByte crc byte.toUInt8)

/-! ## All functions -/

/-- Serve a function. Returns the cycles it takes. -/
def serve (p : Processor) : Call → BoardM System UInt64
  | .waitByLoop => do
    let loops := (← argument 0).toInt32
    result 0 0
    return if loops < 0 then 0 else loops.toInt64.toUInt64 * 4
  | .intrWait => do waitForInterrupt p ((← argument 0) != 0) (← argument 1)
  | .vBlankIntrWait => waitForInterrupt p true 1
  | .halt => do
    report (.haltedByBios p)
    halt
    return fallbackCycles
  | .sleep => do
    -- There is no hardware to wake up from sleep, so it halts.
    report .sleepingInBios
    halt
    return fallbackCycles
  | .soundBias => return fallbackCycles
  | .div => do
    let (quotient, remainder) := divide (← argument 0).toInt32 (← argument 1).toInt32
    result 0 quotient.toUInt32
    result 1 remainder.toUInt32
    result 3 (if quotient < 0 then (-quotient).toUInt32 else quotient.toUInt32)
    return 40
  | .cpuSet => setMemory p false
  | .cpuFastSet => setMemory p true
  | .sqrt => do
    result 0 (UInt32.ofNat (← argument 0).toNat.sqrt)
    return 20
  | .getCrc16 => do
    let crc ← argument 0
    let address ← argument 1
    let count ← argument 2
    let crc ← checksumFrom p count.toNat address crc.toUInt16
    result 0 crc.toUInt32
    return count.toUInt64 * 2 + 10
  | .isDebugger => do
    result 0 0
    return fallbackCycles
  | .getSineTable => do
    result 0 sineTable[Fin.ofNat 64 (← argument 0).toNat].toUInt32
    return fallbackCycles

/-- Serve a software interrupt. Returns the cycles it takes. -/
def serveNumber (p : Processor) (number : UInt8) : BoardM System UInt64 := do
  match Call.of? p number with
  | none =>
    report (.unknownBiosCall p number)
    return fallbackCycles
  | some call =>
    report (.biosCall p call.name)
    serve p call

end Handheld.Console.Firmware
