import Handheld.EventQueue
import Handheld.Codec
import Handheld.Index
import Handheld.Term

/-!
# Events of the console

What waits in the console's event queue. An event cannot be withdrawn, so whoever handles one
checks that it still applies.
-/

namespace Handheld.Console

/-- An event of the console. -/
inductive Event where
  /-- The end of the time for which the console was told to run. -/
  | pause
  /-- A timer that counts time runs over. -/
  | timerOverflow (timer : UInt8) (isArm9 : Bool)
  /-- The divider has its result ready. -/
  | divisionDone
  /-- The square root unit has its result ready. -/
  | squareRootDone
  deriving DecidableEq, Repr

namespace Event

/-- How the log writes an event. -/
def text : Event → String
  | pause => "PauseEmulation"
  | timerOverflow timer isArm9 =>
    Term.record "TimerOverflow"
      [("timer", Term.natural timer.toNat), ("is_arm9", Term.truth isArm9)]
  | divisionDone => "DivDone"
  | squareRootDone => "SqrtDone"

open Codec in
/-- The saved form: the number of the kind, and behind that of an overflow the timer and its
processor. -/
def codec : Codec Event where
  put
    | pause, acc => (tag 4).put 0 acc
    | timerOverflow timer isArm9, acc => (u8.pair bool).put (timer, isArm9) ((tag 4).put 1 acc)
    | divisionDone, acc => (tag 4).put 2 acc
    | squareRootDone, acc => (tag 4).put 3 acc
  get bytes pos := do
    let (kind, pos) ← (tag 4).get bytes pos
    match kind with
    | 0 => return (pause, pos)
    | 1 =>
      let ((timer, isArm9), pos) ← (u8.pair bool).get bytes pos
      return (timerOverflow timer isArm9, pos)
    | 2 => return (divisionDone, pos)
    | 3 => return (squareRootDone, pos)

end Event
end Handheld.Console
