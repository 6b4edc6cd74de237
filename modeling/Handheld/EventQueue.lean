import Handheld.Log

/-!
# The event queue

A clock together with the events that wait for it. The events are kept soonest first, those of
one time in the order in which they were scheduled, and there is at most one of a kind. Times
are signed, because an event may be scheduled before the present and because lowering the clock
by a fixed amount (`rebase`) can take an overdue event below zero.

The field `next` repeats the time of the first event. It is stored rather than computed because
it is part of the saved form of a queue.
-/

namespace Handheld

/-- An event that waits for its time. -/
structure Pending (κ : Type) where
  kind : κ
  time : Int64
  deriving DecidableEq, Repr

/-- The event moved `amount` closer to zero. -/
def Pending.lower {κ : Type} (e : Pending κ) (amount : Int64) : Pending κ :=
  { e with time := e.time - amount }

/-- An event that was taken from the queue, and by how much its time had passed. -/
structure Fired (κ : Type) where
  kind : κ
  lateBy : Int64
  deriving DecidableEq, Repr

/-- A clock and the events that wait for it, soonest first. -/
structure EventQueue (κ : Type) where
  now : UInt64 := 0
  next : Int64 := Int64.maxValue
  events : List (Pending κ) := []
  deriving DecidableEq, Repr

namespace EventQueue

variable {κ : Type}

/-- At most this many events wait at a time. -/
def capacity : Nat := 32

/-- A clock that has reached this time is lowered by as much. -/
def rebaseAt : UInt64 := 0xF0000000

/-- The sum, or the end of the range that it runs past. -/
def saturatingAdd (a b : Int64) : Int64 :=
  Int64.ofInt (max Int64.minValue.toInt (min Int64.maxValue.toInt (a.toInt + b.toInt)))

/-- The time, with everything before zero reported as zero. -/
def clampTime (t : Int64) : UInt64 := if t < 0 then 0 else t.toUInt64

/-! ## Queries -/

/-- Number of waiting events. -/
def size (q : EventQueue κ) : Nat := q.events.length

def isEmpty (q : EventQueue κ) : Bool := q.events.isEmpty

/-- Whether an event is due right now. -/
def hasDue (q : EventQueue κ) : Bool := q.next ≤ q.now.toInt64

/-- Kind of the first event. -/
def nextKind? (q : EventQueue κ) : Option κ := q.events.head?.map (·.kind)

/-- Time of the first event, overdue ones below zero reported as zero. -/
def nextTime? (q : EventQueue κ) : Option UInt64 := q.events.head?.map (clampTime ·.time)

/-- Whether an event of this kind waits. -/
def isScheduled [BEq κ] (q : EventQueue κ) (kind : κ) : Bool :=
  q.events.any (·.kind == kind)

/-- Whether scheduling this kind would be refused: the queue is full of other kinds. -/
def refuses [BEq κ] (q : EventQueue κ) (kind : κ) : Bool :=
  !q.isScheduled kind && capacity ≤ q.size

/-! ## Scheduling -/

/-- The queue with `next` brought up to date. -/
def refresh (q : EventQueue κ) : EventQueue κ :=
  { q with next := (q.events.head?.map (·.time)).getD Int64.maxValue }

/-- The events without the last one of this kind. -/
def remove [BEq κ] (kind : κ) (events : List (Pending κ)) : List (Pending κ) :=
  (events.reverse.eraseP (·.kind == kind)).reverse

/-- The events with one more, placed behind those of the same time. -/
def insert (event : Pending κ) (events : List (Pending κ)) : List (Pending κ) :=
  events.takeWhile (·.time ≤ event.time) ++ event :: events.dropWhile (·.time ≤ event.time)

/-- Schedule an event `delay` after the present, in place of one of the same kind that waits.
A full queue refuses the event and stays as it is. -/
def schedule [BEq κ] (q : EventQueue κ) (kind : κ) (delay : Int64) : EventQueue κ :=
  if q.refuses kind then q
  else
    let event := ⟨kind, saturatingAdd q.now.toInt64 delay⟩
    { q with events := insert event (remove kind q.events) }.refresh

/-- Schedule an event and report a refusal. -/
def scheduleLogged [BEq κ] (describe : κ → String) (q : EventQueue κ) (kind : κ) (delay : Int64)
    (log : Log) : EventQueue κ × Log :=
  (q.schedule kind delay,
    if q.refuses kind then log.add (.queueFull (describe kind)) else log)

/-! ## Running the clock -/

/-- Take the first event if its time is at or before `target`, and move the clock on to it. -/
def popDue (q : EventQueue κ) (target : UInt64) : Option (Fired κ × EventQueue κ) :=
  if q.next > target.toInt64 then none
  else match q.events with
    | [] => none
    | event :: rest =>
      let now := max q.now (clampTime event.time)
      some (⟨event.kind, now.toInt64 - event.time⟩, { q with now, events := rest }.refresh)

/-- Fire every event due at or before `target`, in order, then set the clock to `target`. The
handler is given the queue with its clock at the event and may schedule more. Without a result if
more than `fuel` events fire. -/
def advanceTo? {σ : Type} (handler : EventQueue κ → σ → Fired κ → EventQueue κ × σ)
    (target : UInt64) : Nat → EventQueue κ → σ → Option (EventQueue κ × σ)
  | fuel, q, s =>
    match q.popDue target with
    | none => some ({ q with now := max q.now target }, s)
    | some (event, rest) =>
      match fuel with
      | 0 => none
      | fuel + 1 =>
        let (q', s') := handler rest s event
        advanceTo? handler target fuel q' s'

/-- Lower the clock and every event by `rebaseAt` once the clock has come that far. Returns how
much was taken off, for the owners of clocks derived from this one. -/
def rebase (q : EventQueue κ) : UInt64 × EventQueue κ :=
  if q.now < rebaseAt then (0, q)
  else
    (rebaseAt,
      { q with
        now := q.now - rebaseAt
        events := q.events.map (Pending.lower · rebaseAt.toInt64) }.refresh)

end EventQueue
end Handheld
