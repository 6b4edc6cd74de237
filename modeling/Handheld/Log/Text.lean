import Handheld.Arm.Listing
import Handheld.Log
import Handheld.Thumb.Listing

/-!
# Log lines

How a log entry reads: the first letter of its level, a space and its text. Instructions are
listed only here, so that a run without a log never spells them out.
-/

namespace Handheld

open Hex

/-- The letter that a line starts with. -/
def LogLevel.letter : LogLevel → String
  | error => "E"
  | warn => "W"
  | info => "I"
  | debug => "D"
  | trace => "T"

/-- How an opcode of either instruction set reads in a listing. -/
def listing (thumb : Bool) (inst : UInt32) : String :=
  if thumb then Thumb.listing inst.toUInt16 else Arm.listing inst

/-- A register of the system control coprocessor. -/
def controlRegisterText (cn cm cp : UInt32) : String := s!"C{cn},C{cm},{cp}"

namespace LogEntry

/-- The weight of an entry. -/
def level : LogEntry → LogLevel
  | unknownOpcode .. | absentControlRead .. | absentControlWrite .. | unknownControlRead ..
  | unknownControlWrite .. | loadFailed .. => .error
  | queueFull .. | unknownBiosCall .. => .warn
  | unknownIoRead .. | unknownIoWrite .. => .info
  | wokeUp .. | unmappedWrite .. | haltedByPowerControl | powerMode .. | haltedByControl
  | haltedByBios .. | sleepingInBios | waitingForInterrupts .. => .debug
  | executing .. | takingIrq .. | firing .. | biosCall .. => .trace

/-- What an entry says. -/
def text : LogEntry → String
  | executing cpu thumb pc inst cpsr =>
    s!"{cpu.name} 0x{word pc} | {word inst}: {listing thumb inst}, cpsr 0x{word cpsr}"
  | unknownOpcode cpu inst pc =>
    s!"{cpu.name}: Unknown opcode '0x{digits inst.toNat}' at 0x{word pc}"
  | takingIrq cpu => s!"{cpu.name} taking IRQ"
  | wokeUp cpu => s!"{cpu.name} woke up from halt"
  | absentControlRead cn cm cp =>
    s!"CP15 read from {controlRegisterText cn cm cp} on a system without CP15"
  | absentControlWrite cn cm cp value =>
    s!"CP15 write 0x{word value} to {controlRegisterText cn cm cp} on a system without CP15"
  | unknownControlRead cn cm cp =>
    s!"Read from unknown CP15 register {controlRegisterText cn cm cp}"
  | unknownControlWrite cn cm cp value =>
    s!"Write 0x{word value} to unknown CP15 register {controlRegisterText cn cm cp}"
  | queueFull event => s!"Scheduler queue full, dropping event {event}"
  | firing event lateBy => s!"Firing {event} ({lateBy} late)"
  | unmappedWrite address => s!"Write to unmapped address 0x{word address} ignored"
  | unknownIoRead cpu offset =>
    s!"{cpu.name} read from unknown IO register 0x{digits offset.toNat}"
  | unknownIoWrite cpu offset value =>
    s!"{cpu.name} write 0x{digits value.toNat} to unknown IO register 0x{digits offset.toNat}"
  | haltedByPowerControl => "ARM7 halted through HALTCNT"
  | powerMode mode => s!"ARM7 entered power mode {mode} through HALTCNT, halting"
  | haltedByControl => "ARM9 halted through CP15"
  | unknownBiosCall cpu number =>
    s!"{cpu.name} called unknown BIOS function 0x{padded 2 number.toNat}, ignoring"
  | biosCall cpu name => s!"{cpu.name} BIOS call {name}"
  | haltedByBios cpu => s!"{cpu.name} halted through BIOS"
  | sleepingInBios => "ARM7 went to sleep through BIOS, halting"
  | waitingForInterrupts cpu flags =>
    s!"{cpu.name} waiting for interrupts 0x{digits flags.toNat}"
  | loadFailed message => s!"Failed to load save state: {message}"

/-- The line of an entry. -/
def line (entry : LogEntry) : String := entry.level.letter ++ " " ++ entry.text

end LogEntry

/-- The lines of a log, oldest first. -/
def Log.lines (log : Log) : List String := log.entries.toList.map LogEntry.line

end Handheld
