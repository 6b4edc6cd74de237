import Handheld.Processor

/-!
# The log

What the machine reports while it runs. An entry records the facts of one report; how it reads as
a line of text is decided in `Handheld.Log.Text`. The log is a value beside the machine's state:
nothing in the machine depends on it, and while it is switched off nothing is kept.
-/

namespace Handheld

/-- The weight of a log entry. -/
inductive LogLevel where
  | error | warn | info | debug | trace
  deriving DecidableEq, Repr

/-- One report of the machine. -/
inductive LogEntry where
  /-- An instruction is about to execute. -/
  | executing (cpu : Processor) (thumb : Bool) (pc inst cpsr : UInt32)
  /-- An opcode without meaning on this processor was skipped. -/
  | unknownOpcode (cpu : Processor) (inst pc : UInt32)
  | takingIrq (cpu : Processor)
  | wokeUp (cpu : Processor)
  /-- A read of the system control coprocessor where there is none. -/
  | absentControlRead (cn cm cp : UInt32)
  | absentControlWrite (cn cm cp value : UInt32)
  /-- A read of a system control register that does not exist. -/
  | unknownControlRead (cn cm cp : UInt32)
  | unknownControlWrite (cn cm cp value : UInt32)
  /-- An event was dropped because the event queue was full. -/
  | queueFull (event : String)
  | firing (event : String) (lateBy : Int64)
  | unmappedWrite (address : UInt32)
  | unknownIoRead (cpu : Processor) (offset : UInt32)
  | unknownIoWrite (cpu : Processor) (offset value : UInt32)
  /-- The companion processor halted itself through its power register. -/
  | haltedByPowerControl
  /-- The companion processor chose a power mode other than halt. -/
  | powerMode (mode : UInt32)
  /-- The main processor halted itself through its control coprocessor. -/
  | haltedByControl
  | unknownBiosCall (cpu : Processor) (number : UInt8)
  | biosCall (cpu : Processor) (name : String)
  | haltedByBios (cpu : Processor)
  /-- The companion processor went to sleep in a firmware call. -/
  | sleepingInBios
  | waitingForInterrupts (cpu : Processor) (flags : UInt32)
  | loadFailed (message : String)
  deriving Repr

/-- The entries so far, oldest first, if the log is switched on. -/
structure Log where
  enabled : Bool := false
  entries : Array LogEntry := #[]
  deriving Repr, Inhabited

namespace Log

/-- Append an entry, if the log is switched on. -/
def add (log : Log) (entry : LogEntry) : Log :=
  if log.enabled then { log with entries := log.entries.push entry } else log

end Log
end Handheld
