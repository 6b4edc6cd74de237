import Handheld.Console.Event
import Handheld.Console.Ipc
import Handheld.Console.MathUnit
import Handheld.Console.Memory
import Handheld.Console.SystemControl
import Handheld.Console.Timer

/-!
# The system that both processors share

All devices of the console but the processors themselves, and what happens when an event fires.
-/

namespace Handheld.Console

/-- Settings that do not change while a session runs. -/
structure Config where
  /-- Serve firmware calls natively. -/
  nativeFirmware : Bool := true
  /-- Ask for compressed saved states. -/
  compressStates : Bool := false
  deriving DecidableEq, Repr, Inhabited

/-- The devices of the console. -/
structure System where
  memory : Memory := {}
  interrupts : PerProcessor InterruptController := ⟨{}, {}⟩
  timers : PerProcessor Timers := ⟨{}, {}⟩
  ipc : Ipc := {}
  control : SystemControl := SystemControl.initial
  divider : Divider := {}
  squareRoot : SquareRoot := {}
  queue : EventQueue Event := {}
  config : Config := {}
  /-- Cleared by the pause event. -/
  running : Bool := false

namespace System

/-- Raise an interrupt on a processor. -/
def raise (s : System) (p : Processor) (i : Interrupt) : System :=
  { s with interrupts := s.interrupts.modify p (·.request i) }

/-- Schedule an event, reporting a refusal. -/
def schedule (s : System) (event : Event) (delay : Int64) (log : Log) : System × Log :=
  let (queue, log) := s.queue.scheduleLogged Event.text event delay log
  ({ s with queue }, log)

/-- The event of a timer's overflow. -/
def overflowEvent (p : Processor) (i : Fin 4) : Event :=
  .timerOverflow (UInt8.ofNat i.val) (p == .arm9)

/-- Start a division anew with the present inputs. -/
def startDivision (s : System) (log : Log) : System × Log :=
  let divider := s.divider.update.setBusy true
  { s with divider }.schedule .divisionDone divider.latency log

/-- Start a square root anew with the present input. -/
def startSquareRoot (s : System) (log : Log) : System × Log :=
  { s with squareRoot := s.squareRoot.update.setBusy true }.schedule .squareRootDone
    SquareRoot.latency log

/-- Write the control register of a timer. -/
def writeTimerControl (s : System) (p : Processor) (i : Fin 4) (lanes : Lanes) (log : Log) :
    System × Log :=
  let (timers, delay?) := (s.timers.get p).writeControl i lanes s.queue.now
  let s := { s with timers := s.timers.set p timers }
  match delay? with
  | none => (s, log)
  | some delay => s.schedule (overflowEvent p i) delay log

/-- Handle the overflow of a timer. It may have been disabled, or switched to counting up, since
its event was scheduled. -/
def onTimerOverflow (s : System) (p : Processor) (i : Fin 4) (lateBy : Int64) (log : Log) :
    System × Log :=
  let timers := s.timers.get p
  if timers.countsTime i then
    let (timers, interrupts, delay) := timers.onOverflow (s.interrupts.get p) i s.queue.now lateBy
    let s :=
      { s with timers := s.timers.set p timers, interrupts := s.interrupts.set p interrupts }
    s.schedule (overflowEvent p i) delay log
  else (s, log)

/-- Handle an event. -/
def dispatch (s : System) (event : Fired Event) (log : Log) : System × Log :=
  let log := log.add (.firing event.kind.text event.lateBy)
  match event.kind with
  | .pause => ({ s with running := false }, log)
  | .timerOverflow timer isArm9 =>
    if h : timer.toNat < 4 then
      s.onTimerOverflow (if isArm9 then .arm9 else .arm7) ⟨timer.toNat, h⟩ event.lateBy log
    else (s, log)
  | .divisionDone => ({ s with divider := s.divider.setBusy false }, log)
  | .squareRootDone => ({ s with squareRoot := s.squareRoot.setBusy false }, log)

end System
end Handheld.Console
