import Handheld.Codec
import Handheld.EventQueue

/-!
# The saved form of an event queue

The clock, the time of the next event, and the events, latest first. Nothing is computed anew on
reading: the queue is what was written, its `next` included.
-/

namespace Handheld

open Codec

/-- The saved form of a waiting event. -/
def Pending.codec {κ : Type} (kind : Codec κ) : Codec (Pending κ) :=
  (kind.pair i64).imap (fun (kind, time) => ⟨kind, time⟩) (fun e => (e.kind, e.time))

/-- The saved form of a queue. -/
def EventQueue.codec {κ : Type} (kind : Codec κ) : Codec (EventQueue κ) :=
  (u64.pair (i64.pair (list EventQueue.capacity (Pending.codec kind)))).imap
    (fun (now, next, events) => { now, next, events := events.reverse })
    (fun q => (q.now, q.next, q.events.reverse))

end Handheld
