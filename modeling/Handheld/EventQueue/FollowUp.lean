import Handheld.EventQueue

/-!
# Follow-up rules

A handler of events given as data: each rule waits for one kind of event and answers it a limited
number of times by scheduling another. Every event that fires was waiting at the start or is
paid for by one use of a rule, so running such a handler always ends.
-/

namespace Handheld

/-- When `trigger` fires, schedule `kind` after `delay`, up to `times` times. -/
structure FollowUp (κ : Type) where
  trigger : κ
  kind : κ
  delay : Int64
  times : Nat
  deriving Repr

namespace FollowUp

variable {κ : Type}

/-- What the handler remembers: the rules with their remaining uses, the events that fired with
the time at which each was handled, newest first, and the log. -/
structure Progress (κ : Type) where
  rules : List (FollowUp κ)
  fired : List (Fired κ × UInt64) := []
  log : Log

/-- Apply the rules to one event, in order. -/
def apply [BEq κ] (describe : κ → String) (trigger : κ) :
    List (FollowUp κ) → EventQueue κ → Log → List (FollowUp κ) × EventQueue κ × Log
  | [], q, log => ([], q, log)
  | rule :: rules, q, log =>
    if rule.trigger == trigger && rule.times != 0 then
      let (q, log) := q.scheduleLogged describe rule.kind rule.delay log
      let (rules, q, log) := apply describe trigger rules q log
      ({ rule with times := rule.times - 1 } :: rules, q, log)
    else
      let (rules, q, log) := apply describe trigger rules q log
      (rule :: rules, q, log)

/-- Record the event, then apply the rules to it. -/
def handle [BEq κ] (describe : κ → String) (q : EventQueue κ) (p : Progress κ)
    (event : Fired κ) : EventQueue κ × Progress κ :=
  let (rules, q', log) := apply describe event.kind p.rules q p.log
  (q', { rules, fired := (event, q.now) :: p.fired, log })

/-- Enough for every event that waits and every use that a rule has left. -/
def bound (q : EventQueue κ) (rules : List (FollowUp κ)) : Nat :=
  rules.foldr (fun rule n => rule.times + n) q.size

/-- Advance the clock to `target` under a table of rules. Returns the queue, the events that
fired in order with the time of their handling, and the log. -/
def advance? [BEq κ] (describe : κ → String) (rules : List (FollowUp κ)) (target : UInt64)
    (q : EventQueue κ) (log : Log) : Option (EventQueue κ × List (Fired κ × UInt64) × Log) := do
  let (q', p) ← q.advanceTo? (handle describe) target (bound q rules) { rules, log }
  return (q', p.fired.reverse, p.log)

end FollowUp
end Handheld
