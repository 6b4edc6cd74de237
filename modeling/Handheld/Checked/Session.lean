import Handheld.Checked.EventQueue
import Handheld.Checked.Execute
import Handheld.Console.Session

/-!
# Sessions with checked ranges

A session whose processors and whose event queue check their ranges: it stops where one of them
does. Each of its bounds is that of a session that does not check, and is told apart from a stop.
-/

namespace Handheld.Console.Session

/-! ## Events -/

/-- Fire the events that are due, then set the queue's clock. -/
def settleWithinChecked : (fuel : Nat) → (target : UInt64) → System → Log → Checked (System × Log)
  | fuel, target, s, log => do
    match ← s.queue.popDueChecked target with
    | none => return ({ s with queue := { s.queue with now := max s.queue.now target } }, log)
    | some (event, queue) =>
      match fuel with
      | 0 => throw .outOfFuel
      | fuel + 1 =>
        let (s, log) := { s with queue }.dispatch event log
        settleWithinChecked fuel target s log

/-- Fire the events that are due, then set the queue's clock. -/
def settleChecked (target : UInt64) (s : System) (log : Log) : Checked (System × Log) :=
  settleWithinChecked (eventBound s.queue target) target s log

/-! ## Running -/

/-- Run one step of a processor and move its clock. -/
def stepCpuChecked (p : Processor) (s : Session) (log : Log) : Checked (Session × Log) := do
  let (cycles, b) ← (core p).stepChecked { cpu := s.cpus.get p, system := s.system, log }
  let own := s.clocks.get p
  let cycles := scale p cycles
  let clock :=
    if cycles = 0 then
      idleTarget own (s.clocks.get p.other) (s.cpus.get p.other).isHalted b.system.queue.nextTime?
    else own + cycles
  return ({ cpus := s.cpus.set p b.cpu, system := b.system, clocks := s.clocks.set p clock }, b.log)

/-- Lower all clocks once the queue's has come far enough. -/
def rebaseChecked (s : Session) : Checked Session := do
  let (bias, queue) ← s.system.queue.rebaseChecked
  if bias = 0 then return { s with system := { s.system with queue } }
  else
    return { s with
      system := { s.system with queue, timers := s.system.timers.map (·.rebase bias) }
      clocks := s.clocks.map (· - bias) }

/-- Run one instruction of the processor that is behind, then bring the event queue up to the
slower of the two. -/
def advanceChecked (s : Session) (log : Log) : Checked (Session × Log) := do
  let (s, log) ← s.stepCpuChecked s.next log
  let (system, log) ← settleChecked (min s.clocks.arm7 s.clocks.arm9) s.system log
  return (← { s with system }.rebaseChecked, log)

/-- Advance until the pause event has fired. -/
def runWithinChecked : (fuel : Nat) → Session → Log → Checked (Session × Log)
  | fuel, s, log =>
    if !s.system.running then return (s, log)
    else match fuel with
      | 0 => throw .outOfFuel
      | fuel + 1 => do
        let (s, log) ← s.advanceChecked log
        runWithinChecked fuel s log

/-- Run until the given number of cycles have passed on the queue's clock. -/
def runForChecked (cycles : UInt64) (s : Session) (log : Log) : Checked (Session × Log) :=
  let bound := s.runBound cycles
  let (system, log) := s.system.schedule .pause cycles.toInt64 log
  runWithinChecked bound { s with system := { system with running := true } } log

end Handheld.Console.Session
