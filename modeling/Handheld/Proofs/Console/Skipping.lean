import Handheld.Proofs.Console.Progress

/-!
# Skipping ahead

A processor that sleeps takes no time for its step and skips ahead instead. How far depends on
whether the other processor is halted, and not on whether an interrupt is about to wake it:
`skip_within_a_cycle_iff` says when the one that skips stays within a cycle of the other.
-/

namespace Handheld.Console.Session

open Happening

variable {s s' : Session} {log log' : Log}

/-- Only a processor that sleeps takes no time for a step. -/
theorem asleep_of_no_time {p : Processor} {b : Board System} (h : ((core p).step b).1 = 0) :
    (core p).canRun b = false := by
  by_contra hrun
  obtain ⟨hpositive, -⟩ := scale_step (Bool.eq_true_of_not_eq_false hrun)
  rw [h] at hpositive
  cases p <;> exact absurd hpositive (by decide)

/-- **Skipping ahead stays within a cycle of the other processor** exactly if that one is not
halted, or an event comes in time. Whether an interrupt is pending for the other processor, so that
it runs in its next step, makes no difference. -/
theorem skip_within_a_cycle_iff (reachable : Reachable s) (inRange : s.InRange)
    (idle : ((core s.next).step (s.board s.next log)).1 = 0)
    (returned : s.advance? log = some (s', log')) :
    (s'.clocks.get s.next).toNat + loweredBy (s.advanceTrace log) ≤
        (s.clocks.get s.next.other).toNat + 1 ↔
      ((s.cpus.get s.next.other).isHalted = true →
        ∀ t, s.system.queue.nextTime? = some t →
          t.toNat ≤ (s.clocks.get s.next.other).toNat + 1) := by
  have hadvanced := reachable.advanced inRange returned
  have hbehind := UInt64.le_iff_toNat_le.mp hadvanced.behind
  have hskipped : (s.stepCpu s.next log).1.clocks.get s.next =
      idleTarget (s.clocks.get s.next) (s.clocks.get s.next.other)
        (s.cpus.get s.next.other).isHalted s.system.queue.nextTime? := by
    rw [stepCpu_of_asleep (asleep_of_no_time idle)]
    exact PerProcessor.get_set_self _ _ _
  rw [hadvanced.own, hskipped]
  exact idleTarget_le_iff hbehind _ _

/-- A sleeping console whose companion processor waits for the interrupt of a timer. -/
def alarmed : Session :=
  ((asleep.write .arm7 .word 0x4000210 8 {}).1.write .arm7 .word 0x4000100 0xC0FFF0 {}).1

/-- The same console once the interrupt has come. -/
def waking : Session := alarmed.advanced.advanced

/-- The companion processor runs in its next step, and yet the main processor skips ahead of it to
the next overflow of the timer. -/
theorem skip_past_a_waking_processor :
    Reachable waking ∧ waking.InRange ∧
    ((core waking.next).step (waking.board waking.next {})).1 = 0 ∧
    waking.advance? {} = some (waking.advanced, {}) ∧
    (core waking.next.other).canRun (waking.advanced.board waking.next.other {}) = true ∧
    waking.advanced.clocks = ⟨32, 64⟩ ∧
    ¬ (waking.advanced.clocks.get waking.next).toNat + loweredBy (waking.advanceTrace {}) ≤
      (waking.clocks.get waking.next.other).toNat + 1 := by
  have halarmed : Reachable alarmed :=
    (reachable_asleep.step (.write asleep .arm7 .word 0x4000210 8 {}) (by decide)).step
      (.write _ .arm7 .word 0x4000100 0xC0FFF0 {}) (by decide)
  have hfirst : alarmed.advance? {} = some (alarmed.advanced, {}) := by rfl
  have hsecond : alarmed.advanced.advance? {} = some (waking, {}) := by rfl
  have hthird : waking.advance? {} = some (waking.advanced, {}) := by rfl
  have hreachable : Reachable waking :=
    (halarmed.step (.advance hfirst) (by decide)).step (.advance hsecond) (by decide)
  have hinRange : waking.InRange := by
    intro p
    cases p <;> decide
  have hidle : ((core waking.next).step (waking.board waking.next {})).1 = 0 := by rfl
  refine ⟨hreachable, hinRange, hidle, hthird, by rfl, by rfl, fun hwithin => ?_⟩
  have htime := (skip_within_a_cycle_iff hreachable hinRange hidle hthird).mp hwithin rfl 64 rfl
  exact absurd htime (by decide)

end Handheld.Console.Session
