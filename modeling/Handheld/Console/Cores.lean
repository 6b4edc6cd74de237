import Handheld.Console.Firmware.Call
import Handheld.Cpu.Step

/-!
# The console's processor cores

How each processor is connected to the system. Every access takes one cycle.
-/

namespace Handheld.Console

open BoardM

/-- Serve a software interrupt natively, if the settings say so. -/
def nativeCall (p : Processor) (number : UInt8) : BoardM System (Option UInt64) := do
  if ← ask (·.config.nativeFirmware) then return some (← Firmware.serveNumber p number)
  else return none

/-- Read a register of the main processor's control coprocessor. -/
def controlRead (cn cm cp : UInt32) : BoardM System UInt32 := do
  match ← ask (·.control.read? cn cm cp) with
  | some value => return value
  | none =>
    report (.unknownControlRead cn cm cp)
    return 0

/-- Write a register of the main processor's control coprocessor, which may halt it. -/
def controlWrite (cn cm cp value : UInt32) : BoardM System Unit := do
  let (control, effect) ← ask (·.control.write cn cm cp value)
  update ({ · with control })
  match effect with
  | .none => return
  | .halt =>
    report .haltedByControl
    updateCpu ({ · with isHalted := true })
  | .unknown => report (.unknownControlWrite cn cm cp value)

/-- A processor on its memory map, with what both have in common. -/
def plainCore (p : Processor) : Core System where
  processor := p
  read := read p
  write := write p
  waitTime := fun _ _ _ => return 1
  interrupts := fun s => s.interrupts.get p
  nativeCall := nativeCall p

/-- The core of a processor. Only the main processor has a control coprocessor. -/
def core : Processor → Core System
  | .arm7 => plainCore .arm7
  | .arm9 =>
    { plainCore .arm9 with
      vectorBase := fun s => s.control.vectorBase
      controlRead := controlRead
      controlWrite := controlWrite }

end Handheld.Console
