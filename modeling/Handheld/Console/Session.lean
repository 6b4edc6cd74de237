import Handheld.Console.Cores

/-!
# Sessions

A running console: both processors, each with its own clock, and the system they share. All
clocks run at the main processor's frequency; a cycle of the companion processor counts double.
The processor that is behind runs next, the main processor first if neither is. The clock of the
event queue follows the slower of the two.

Events are fired, and a session runs, until nothing is left to do. How often that is depends on
the events that wait, so both are given a bound computed from the clocks, and have no result if
it should not suffice. A session that was not loaded from elsewhere never exceeds it.
-/

namespace Handheld.Console

/-- A running console. -/
structure Session where
  cpus : PerProcessor CpuState := ⟨{}, {}⟩
  system : System := {}
  /-- Cycles that each processor has run for. -/
  clocks : PerProcessor UInt64 := ⟨0, 0⟩

namespace Session

/-- A console that was just switched on. -/
def new (config : Config) : Session := { system := { config } }

/-- Start both processors at their entry points, as the firmware leaves them behind: with the
windows of the tightly coupled memories set up and the boot flags set. -/
def directBoot (s : Session) (entry9 entry7 : UInt32) : Session :=
  let control := s.system.control
    |>.write 9 1 0 0x0300000A |>.1
    |>.write 9 1 1 0x20 |>.1
    |>.write 1 0 0 0x00052078 |>.1
  { s with
    cpus := ⟨Firmware.bootState .arm7 entry7, Firmware.bootState .arm9 entry9⟩
    system :=
      { s.system with
        control
        memory := { s.system.memory with bootFlags := ⟨1, 1⟩ } } }

/-- Cycles on the clock of the event queue. -/
def now (s : Session) : UInt64 := s.system.queue.now

/-- Raise an interrupt on a processor. -/
def requestInterrupt (s : Session) (p : Processor) (i : Interrupt) : Session :=
  { s with system := s.system.raise p i }

/-- Let a processor's board act. -/
def onBoard {α : Type} (p : Processor) (act : BoardM System α) (s : Session) (log : Log) :
    α × Session × Log :=
  let (a, b) := act { cpu := s.cpus.get p, system := s.system, log }
  (a, { s with cpus := s.cpus.set p b.cpu, system := b.system }, b.log)

/-- Read from a processor's memory map. -/
def read (p : Processor) (w : Width) (address : UInt32) (s : Session) (log : Log) :
    UInt32 × Session × Log :=
  s.onBoard p (Console.read p w address) log

/-- Write to a processor's memory map. -/
def write (p : Processor) (w : Width) (address value : UInt32) (s : Session) (log : Log) :
    Session × Log :=
  (s.onBoard p (Console.write p w address value) log).2

/-! ## Events -/

/-- How many events can fire up to a time: each that waits, and whatever overflows of the same
timer follow it, at least two cycles apart. -/
def eventBound (q : EventQueue Event) (target : UInt64) : Nat :=
  q.events.foldr (fun e n => (target.toNat - e.time.toInt : Int).toNat / 2 + 1 + n) 0

/-- Fire the events that are due, then set the queue's clock. Without a result if more than `fuel`
events fire. -/
def settleWithin : (fuel : Nat) → (target : UInt64) → System → Log → Option (System × Log)
  | fuel, target, s, log =>
    match s.queue.popDue target with
    | none => some ({ s with queue := { s.queue with now := max s.queue.now target } }, log)
    | some (event, queue) =>
      match fuel with
      | 0 => none
      | fuel + 1 =>
        let (s, log) := { s with queue }.dispatch event log
        settleWithin fuel target s log

/-- Fire the events that are due, then set the queue's clock. -/
def settle? (target : UInt64) (s : System) (log : Log) : Option (System × Log) :=
  settleWithin (eventBound s.queue target) target s log

/-! ## Running -/

/-- The processor that runs next. -/
def next (s : Session) : Processor := if s.clocks.arm9 ≤ s.clocks.arm7 then .arm9 else .arm7

/-- Cycles of the console's clock that a step's cycles stand for. -/
def scale (p : Processor) (cycles : UInt64) : UInt64 :=
  match p with
  | .arm7 => cycles <<< 1
  | .arm9 => cycles

/-- Where the clock of a halted processor can skip to: the next event, but not past the other
processor while that one runs. -/
def idleTarget (own other : UInt64) (otherHalted : Bool) (next : Option UInt64) : UInt64 :=
  let target :=
    match next, otherHalted with
    | some next, true => next
    | some next, false => min next (other + 1)
    | none, true => own
    | none, false => other + 1
  max target own

/-- Run one step of a processor and move its clock. -/
def stepCpu (p : Processor) (s : Session) (log : Log) : Session × Log :=
  let (cycles, b) := (core p).step { cpu := s.cpus.get p, system := s.system, log }
  let own := s.clocks.get p
  let cycles := scale p cycles
  let clock :=
    if cycles = 0 then
      idleTarget own (s.clocks.get p.other) (s.cpus.get p.other).isHalted b.system.queue.nextTime?
    else own + cycles
  ({ cpus := s.cpus.set p b.cpu, system := b.system, clocks := s.clocks.set p clock }, b.log)

/-- Lower all clocks once the queue's has come far enough. -/
def rebase (s : Session) : Session :=
  let (bias, queue) := s.system.queue.rebase
  if bias = 0 then { s with system := { s.system with queue } }
  else
    { s with
      system := { s.system with queue, timers := s.system.timers.map (·.rebase bias) }
      clocks := s.clocks.map (· - bias) }

/-- Run one instruction of the processor that is behind, then bring the event queue up to the
slower of the two. -/
def advance? (s : Session) (log : Log) : Option (Session × Log) := do
  let (s, log) := s.stepCpu s.next log
  let (system, log) ← settle? (min s.clocks.arm7 s.clocks.arm9) s.system log
  return ({ s with system }.rebase, log)

/-- Advance until the pause event has fired. Without a result if that takes more than `fuel`
steps. -/
def runWithin : (fuel : Nat) → Session → Log → Option (Session × Log)
  | fuel, s, log =>
    if !s.system.running then some (s, log)
    else match fuel with
      | 0 => none
      | fuel + 1 =>
        match s.advance? log with
        | none => none
        | some (s, log) => runWithin fuel s log

/-- How many steps a run can take: each moves a clock, and none runs once both are at the end. -/
def runBound (s : Session) (cycles : UInt64) : Nat :=
  let stop := s.now.toNat + cycles.toNat
  (stop - s.clocks.arm7.toNat) + (stop - s.clocks.arm9.toNat) + 2

/-- Run until the given number of cycles have passed on the queue's clock. -/
def runFor? (cycles : UInt64) (s : Session) (log : Log) : Option (Session × Log) :=
  let bound := s.runBound cycles
  let (system, log) := s.system.schedule .pause cycles.toInt64 log
  runWithin bound { s with system := { system with running := true } } log

end Session
end Handheld.Console
