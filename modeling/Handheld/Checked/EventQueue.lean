import Handheld.Checked
import Handheld.EventQueue.FollowUp

/-!
# The event queue with checked ranges

Taking events and lowering the clock subtract times, which are signed. Here these differences do
not wrap around: a queue stops at the first one that leaves its range. Scheduling is as it was, as
its sum ends where the range does.
-/

namespace Handheld

namespace EventQueue

variable {κ : Type}

/-- Take the first event if its time is at or before `target`, and move the clock on to it. How late
the event is has to be in range. -/
def popDueChecked (q : EventQueue κ) (target : UInt64) :
    Checked (Option (Fired κ × EventQueue κ)) := do
  if q.next > target.toInt64 then return none
  else match q.events with
    | [] => return none
    | event :: rest =>
      let now := max q.now (clampTime event.time)
      let lateBy ← Checked.subSignedLong now.toInt64 event.time
      return some (⟨event.kind, lateBy⟩, { q with now, events := rest }.refresh)

/-- Fire every event due at or before `target`, in order, then set the clock to `target`. The
handler may stop, too. -/
def advanceToChecked {σ : Type}
    (handler : EventQueue κ → σ → Fired κ → Checked (EventQueue κ × σ)) (target : UInt64) :
    Nat → EventQueue κ → σ → Checked (EventQueue κ × σ)
  | fuel, q, s => do
    match ← q.popDueChecked target with
    | none => return ({ q with now := max q.now target }, s)
    | some (event, rest) =>
      match fuel with
      | 0 => throw .outOfFuel
      | fuel + 1 =>
        let (q', s') ← handler rest s event
        advanceToChecked handler target fuel q' s'

/-- The events with their times lowered, if these stay in range. -/
def lowerChecked (amount : Int64) : List (Pending κ) → Checked (List (Pending κ))
  | [] => return []
  | e :: events => do
    let time ← Checked.subSignedLong e.time amount
    return { e with time } :: (← lowerChecked amount events)

/-- Lower the clock and every event by `rebaseAt` once the clock has come that far. Returns how
much was taken off. -/
def rebaseChecked (q : EventQueue κ) : Checked (UInt64 × EventQueue κ) := do
  if q.now < rebaseAt then return (0, q)
  else
    let events ← lowerChecked rebaseAt.toInt64 q.events
    return (rebaseAt, { q with now := q.now - rebaseAt, events }.refresh)

end EventQueue

namespace FollowUp

variable {κ : Type}

/-- Advance the clock to `target` under a table of rules. Returns the queue, the events that
fired in order with the time of their handling, and the log. -/
def advanceChecked [BEq κ] (describe : κ → String) (rules : List (FollowUp κ)) (target : UInt64)
    (q : EventQueue κ) (log : Log) :
    Checked (EventQueue κ × List (Fired κ × UInt64) × Log) := do
  let (q', p) ← q.advanceToChecked (fun q p event => return handle describe q p event) target
    (bound q rules) { rules, log }
  return (q', p.fired.reverse, p.log)

end FollowUp
end Handheld
