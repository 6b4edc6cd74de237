import Handheld.Proofs.Console.Ticking

/-!
# No event of a session is lost

What the busy bits of the math units and the waiting events say of each other, that each timer that
counts time has its overflow waiting, and that the queue has room whenever an event is scheduled.
Main statement: `Session.no_event_lost`.
-/

namespace Handheld.Console

/-! ## Where events are scheduled -/

/-- Each recorded write was made to a sound system. -/
theorem sound_chronicle :
    Chronicle fun _ t => ∀ p r before after, Happening.wrote p r before after ∈ t →
      before.Sound where
  congr h _ _ _ _ := h
  wrote {s t} hpunctual _ h p lanes log r q r' before after hmem := by
    rcases List.mem_append.mp hmem with hmem | hmem
    · exact h q r' before after hmem
    · obtain ⟨-, -, rfl, -⟩ := Happening.wrote.inj (List.mem_singleton.mp hmem)
      exact hpunctual.sound
  paused _ h _ := h
  fired _ _ _ _ h _ p r before after hmem := by
    rcases List.mem_append.mp hmem with hmem | hmem
    · exact h p r before after hmem
    · cases List.mem_singleton.mp hmem
  passed _ _ _ _ h := h
  lowered _ _ h p r before after hmem := by
    rcases List.mem_append.mp hmem with hmem | hmem
    · exact h p r before after hmem
    · cases List.mem_singleton.mp hmem

namespace Session

/-- The systems that handle an event while `settleWithin` fires those that are due. -/
def settleHandlers : (fuel : Nat) → (target : UInt64) → System → Log → List System
  | fuel, target, s, log =>
    match s.queue.popDue target with
    | none => []
    | some (event, queue) =>
      { s with queue } ::
        match fuel with
        | 0 => []
        | fuel + 1 =>
          let (s, log) := { s with queue }.dispatch event log
          settleHandlers fuel target s log

theorem sound_settleHandlers {fuel : Nat} {target : UInt64} {s : System} {log : Log}
    (h : s.Sound) : ∀ a ∈ settleHandlers fuel target s log, a.Sound := by
  induction fuel using Nat.strong_induction_on generalizing s log with
  | _ fuel ih =>
    intro a ha
    unfold settleHandlers at ha
    cases hpop : s.queue.popDue target with
    | none =>
      rw [hpop] at ha
      cases ha
    | some popped =>
      have hpopped := h.popDue hpop
      rw [hpop] at ha
      rcases List.mem_cons.mp ha with rfl | hrest
      · exact hpopped
      · cases fuel with
        | zero => cases hrest
        | succ left =>
          exact ih left (Nat.lt_succ_self left) (hpopped.dispatch popped.1 log) a hrest

/-- The systems that handle an event when a session advances. -/
def handlers (s : Session) (log : Log) : List System :=
  let (stepped, log') := s.stepCpu s.next log
  let target := min stepped.clocks.arm7 stepped.clocks.arm9
  settleHandlers (eventBound stepped.system.queue target) target stepped.system log'

/-- The systems on which a session with a past schedules events: that before each write to a device
register, that which is about to run for some time, and those that handle an event when the session
advances. -/
inductive Schedules (s : Session) (t : List Happening) : System → Prop
  | wrote {p : Processor} {r : IoRegister} {before after : System}
    (recorded : Happening.wrote p r before after ∈ t) : Schedules s t before
  | paused : Schedules s t s.system
  | handled {a : System} (log : Log) (handler : a ∈ s.handlers log) : Schedules s t a

theorem Schedules.sound {s : Session} {t : List Happening} (past : s.Past t) {a : System}
    (h : s.Schedules t a) : a.Sound := by
  cases h with
  | wrote recorded =>
    exact sound_chronicle.past (fun _ _ _ _ _ h => absurd h List.not_mem_nil) past _ _ _ _ recorded
  | paused => exact past.reachable.sound.1
  | handled log handler =>
    have hstepped : (s.stepCpu s.next log).1.system.Sound :=
      sound_monitor.instruction (t := []) s.next past.reachable.sound.1 log
    exact sound_settleHandlers hstepped a handler

/-! ## The waiting events -/

/-- **Busy bits track what waits, and no event is lost.** In every session that a console can come
to, a math unit is busy exactly if its completion waits, which is due a latency after the last write
to its input or control registers, the clocks having been lowered since by what the past says. A
timer that counts time has exactly one overflow waiting. Whenever an event is scheduled, at most 11
wait, nothing is reported, and the event waits afterwards. -/
theorem no_event_lost {s : Session} {t : List Happening} (past : s.Past t) :
    (∀ u : MathUnit,
      (u.isBusy s.system = true ↔ ∃ e ∈ s.system.queue.events, e.kind = u.event) ∧
      ∀ e ∈ s.system.queue.events, e.kind = u.event → u.DoneAt t e.time.toInt) ∧
    (∀ p i, (s.system.timers.get p).countsTime i = true →
      ∃ e, s.system.queue.events.filter (·.kind = System.overflowEvent p i) = [e] ∧
        e.time.toInt = s.system.overflowTime p i) ∧
    ∀ a, s.Schedules t a → a.queue.events.length ≤ 11 ∧ ∀ event delay log,
      (a.schedule event delay log).2 = log ∧
      ⟨event, a.queue.dueTime delay⟩ ∈ (a.schedule event delay log).1.queue.events := by
  refine ⟨fun u => ?_, fun p i hcounts => ?_, fun a ha => ?_⟩
  · obtain ⟨hbusy, hdue⟩ := u.waits_chronicle.past u.waits_initial past
    exact ⟨hbusy, hdue⟩
  · obtain ⟨e, he, hkind, htime⟩ :=
      (System.ticks_chronicle p i).past (System.ticks_initial p i) past hcounts
    refine ⟨e, ?_, htime⟩
    rw [← hkind]
    exact past.reachable.sound.1.coherent.distinct.filter_kind he
  · have hsound := ha.sound past
    refine ⟨hsound.length_le, fun event delay log => ⟨?_, ?_⟩⟩
    · show (if a.queue.refuses event then _ else log) = log
      rw [hsound.room, if_neg Bool.false_ne_true]
    · show _ ∈ (a.queue.schedule event delay).events
      rw [EventQueue.mem_schedule hsound.coherent (hsound.room event)]
      exact .inl rfl

/-- The console after a division by 7 was started and its first timer was switched on. -/
def dividing : Session :=
  (((new {}).write .arm9 .word 0x04000298 7 {}).1.write .arm9 .word 0x04000100 0x00800000 {}).1

theorem no_event_lost_dividing :
    ∃ t, dividing.Past t ∧ MathUnit.divider.isBusy dividing.system = true ∧
      (dividing.system.timers.get .arm9).countsTime 0 = true ∧
      (∃ e ∈ dividing.system.queue.events, e.kind = .divisionDone ∧
        MathUnit.divider.DoneAt t e.time.toInt) ∧
      ∃ e, dividing.system.queue.events.filter (·.kind = System.overflowEvent .arm9 0) = [e] ∧
        e.time.toInt = dividing.system.overflowTime .arm9 0 := by
  have hstarted := (Past.new {}).step (.write (new {}) .arm9 .word 0x04000298 7 {}) (by decide)
  have hpast := hstarted.step (.write _ .arm9 .word 0x04000100 0x00800000 {}) (by decide)
  have hbusy : MathUnit.divider.isBusy dividing.system = true := by decide
  have hcounts : (dividing.system.timers.get .arm9).countsTime 0 = true := by decide
  obtain ⟨hunits, htimers, -⟩ := no_event_lost hpast
  obtain ⟨e, he, hkind⟩ := (hunits .divider).1.mp hbusy
  exact ⟨_, hpast, hbusy, hcounts, ⟨e, he, hkind, (hunits .divider).2 e he hkind⟩,
    htimers .arm9 0 hcounts⟩

end Session
end Handheld.Console
