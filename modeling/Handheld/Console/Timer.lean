import Handheld.Codec
import Handheld.Console.Event
import Handheld.Console.Lanes
import Handheld.Cpu.Interrupt

/-!
# Timers

Each processor has four timers of 16 bits. A timer that counts time is not advanced step by
step: its counter is computed from the time at which it was last started, and an event waits for
its overflow. A timer that counts up instead is advanced by the overflow of the one before it.

The console's clock runs at twice the bus clock that the timers count, so a prescaler is twice as
long in cycles of that clock.
-/

namespace Handheld.Console

open Word

/-- The control register of a timer. -/
structure TimerControl where
  raw : UInt16 := 0
  deriving DecidableEq, Repr, Inhabited

namespace TimerControl

/-- Cycles of the console's clock in one step of the counter. -/
def prescaler (c : TimerControl) : UInt32 :=
  match bits c.raw 0 2 with
  | 0 => 2
  | 1 => 128
  | 2 => 512
  | _ => 2048

/-- Whether the timer counts overflows of the one before it. -/
def countsUp (c : TimerControl) : Bool := isBit c.raw 2

/-- Whether an overflow raises an interrupt. -/
def raises (c : TimerControl) : Bool := isBit c.raw 6

def isEnabled (c : TimerControl) : Bool := isBit c.raw 7

/-- Whether the timer of this number counts time. The first timer has none before it and always
does. -/
def countsTime (c : TimerControl) (i : Fin 4) : Bool := c.isEnabled && (i == 0 || !c.countsUp)

end TimerControl

/-- The four timers of a processor. -/
structure Timers where
  /-- Where a counter starts again after an overflow. -/
  reload : Vector UInt16 4 := Vector.replicate 4 0
  control : Vector TimerControl 4 := Vector.replicate 4 {}
  /-- The counters; that of a timer that counts time is the value at its start. -/
  counters : Vector UInt16 4 := Vector.replicate 4 0
  /-- When a timer that counts time was started. -/
  startedAt : Vector UInt64 4 := Vector.replicate 4 0
  deriving DecidableEq, Repr, Inhabited

namespace Timers

/-- Whether a timer counts time. -/
def countsTime (t : Timers) (i : Fin 4) : Bool := t.control[i].countsTime i

/-- The counter of a timer at a time. -/
def read (t : Timers) (i : Fin 4) (now : UInt64) : UInt16 :=
  if t.countsTime i then
    t.counters[i] + ((now - t.startedAt[i]) / t.control[i].prescaler.toUInt64).toUInt16
  else t.counters[i]

/-- The control register of a timer. -/
def readControl (t : Timers) (i : Fin 4) : UInt16 := t.control[i].raw

/-- Cycles until a counter runs over. -/
def untilOverflow (counter : UInt16) (control : TimerControl) : UInt32 :=
  control.prescaler * (0x10000 - counter.toUInt32)

/-- Run a timer over: its counter starts again, its interrupt is raised if wanted, and a timer
after it that counts up moves on, running over in turn if it was at its end. The timer is given
by how many come after it. -/
def overflowFrom : (after : Nat) → (h : after < 4) → Timers → InterruptController →
    Timers × InterruptController
  | after, h, t, c =>
    let i : Fin 4 := ⟨3 - after, by omega⟩
    let t := { t with counters := t.counters.set i t.reload[i] }
    let c := if t.control[i].raises then c.request (Interrupt.timer i) else c
    match after with
    | 0 => (t, c)
    | after + 1 =>
      let next : Fin 4 := ⟨3 - after, by omega⟩
      if t.control[next].isEnabled && t.control[next].countsUp then
        if t.counters[next] = 0xFFFF then overflowFrom after (by omega) t c
        else ({ t with counters := t.counters.set next (t.counters[next] + 1) }, c)
      else (t, c)

/-- Run a timer over. -/
def overflow (t : Timers) (c : InterruptController) (i : Fin 4) : Timers × InterruptController :=
  overflowFrom (3 - i.val) (by omega) t c

/-- Handle the overflow event of a timer that counts time, late by some cycles. Returns the
timers, the interrupt registers and the delay of the next overflow. -/
def onOverflow (t : Timers) (c : InterruptController) (i : Fin 4) (now : UInt64)
    (lateBy : Int64) : Timers × InterruptController × Int64 :=
  let (t, c) := t.overflow c i
  let delay := untilOverflow t.reload[i] t.control[i]
  ({ t with startedAt := t.startedAt.set i (now - lateBy.toUInt64) }, c,
    delay.toUInt64.toInt64 - lateBy)

/-- Write the reload value of a timer. -/
def writeReload (t : Timers) (i : Fin 4) (lanes : Lanes) : Timers :=
  { t with reload := t.reload.set i (lanes.merge16 t.reload[i]) }

/-- Write the control register of a timer. The counter is brought up to date first, because it
may stop counting. A timer that is switched on starts from its reload value. Returns the delay of
the next overflow if the timer counts time from now on. -/
def writeControl (t : Timers) (i : Fin 4) (lanes : Lanes) (now : UInt64) :
    Timers × Option Int64 :=
  let counter := t.read i now
  let old := t.control[i]
  let control : TimerControl := ⟨lanes.merge16 old.raw⟩
  let counter := if !old.isEnabled && control.isEnabled then t.reload[i] else counter
  let t := { t with control := t.control.set i control, counters := t.counters.set i counter }
  if control.countsTime i then
    ({ t with startedAt := t.startedAt.set i now },
      some (untilOverflow counter control).toUInt64.toInt64)
  else (t, none)

/-- The console's clock was lowered. -/
def rebase (t : Timers) (bias : UInt64) : Timers :=
  { t with startedAt := t.startedAt.map (· - bias) }

open Codec in
/-- The saved form of a processor's timers. -/
def codec : Codec Timers :=
  (vector 4 u16 |>.pair <| vector 4 (u16.imap TimerControl.mk TimerControl.raw) |>.pair <|
    vector 4 u16 |>.pair <| vector 4 u64).imap
    (fun (reload, control, counters, startedAt) => { reload, control, counters, startedAt })
    (fun t => (t.reload, t.control, t.counters, t.startedAt))

end Timers
end Handheld.Console
