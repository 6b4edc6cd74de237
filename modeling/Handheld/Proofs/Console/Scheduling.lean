import Mathlib
import Handheld.Console.Session
import Handheld.Proofs.EventQueue.Coherence

/-!
# What the console schedules

The console knows eleven events, so its queue never refuses one. `System.Sound` is what every
operation keeps true of its queue; `writeIo_cases` says what a write to a device register does to
the queue and the timers.
-/

namespace Handheld.Console

/-- Clocks below this bound, which they stay under also while they are about to be lowered, are far
from the end of the range of words. -/
def clockBound : Nat := 2 ^ 62 + 2 ^ 32

/-! ## Known events -/

namespace Event

/-- The events that the console schedules. -/
def known : List Event :=
  [.pause, .divisionDone, .squareRootDone] ++
    (List.finRange 4).flatMap fun i =>
      [System.overflowEvent .arm7 i, System.overflowEvent .arm9 i]

theorem pause_known : pause ∈ known := by decide

theorem divisionDone_known : divisionDone ∈ known := by decide

theorem squareRootDone_known : squareRootDone ∈ known := by decide

theorem overflow_known (p : Processor) (i : Fin 4) : System.overflowEvent p i ∈ known := by
  revert i
  cases p <;> decide

theorem length_known : known.length = 11 := rfl

end Event

namespace System

theorem overflowEvent_inj {p q : Processor} {i j : Fin 4}
    (h : overflowEvent p i = overflowEvent q j) : p = q ∧ i = j := by
  obtain ⟨htimer, hcpu⟩ := Event.timerOverflow.inj h
  have hi : i.val = j.val := by
    have hval := congrArg UInt8.toNat htimer
    rw [UInt8.toNat_ofNat', UInt8.toNat_ofNat'] at hval
    omega
  refine ⟨?_, Fin.ext hi⟩
  cases p <;> cases q <;> first | rfl | cases hcpu

/-! ## Sound systems -/

/-- The queue is coherent, and only events that the console knows wait in it. -/
structure Sound (s : System) : Prop where
  coherent : s.queue.Coherent
  kinds : ∀ e ∈ s.queue.events, e.kind ∈ Event.known

theorem Sound.initial (config : Config) : Sound { config } :=
  ⟨.empty, fun _ he => absurd he List.not_mem_nil⟩

/-- Only the queue matters. -/
theorem Sound.congr {s t : System} (h : s.Sound) (hqueue : t.queue = s.queue) : t.Sound := by
  constructor
  · rw [hqueue]
    exact h.coherent
  · rw [hqueue]
    exact h.kinds

/-- Each kind waits at most once, so no more events wait than there are kinds. -/
theorem Sound.length_le {s : System} (h : s.Sound) : s.queue.events.length ≤ 11 := by
  have hsub : s.queue.events.map (·.kind) ⊆ Event.known := by
    intro kind hkind
    obtain ⟨e, he, rfl⟩ := List.mem_map.mp hkind
    exact h.kinds e he
  have hlength := (List.Nodup.subperm h.coherent.distinct hsub).length_le
  rwa [List.length_map, Event.length_known] at hlength

/-- The queue has room for every event that the console knows. -/
theorem Sound.room {s : System} (h : s.Sound) (event : Event) : s.queue.refuses event = false := by
  have hlength := h.length_le
  have hcapacity : EventQueue.capacity = 32 := rfl
  rw [← Bool.not_eq_true, EventQueue.refuses_iff]
  omega

theorem Sound.schedule {s : System} (h : s.Sound) {event : Event} (hevent : event ∈ Event.known)
    (delay : Int64) : Sound { s with queue := s.queue.schedule event delay } := by
  refine ⟨h.coherent.schedule event delay, ?_⟩
  intro e he
  rcases (EventQueue.mem_schedule h.coherent (h.room event) delay e).mp he with rfl | ⟨he, -⟩
  · exact hevent
  · exact h.kinds e he

/-- An event is taken from a sound system's queue. -/
theorem Sound.popDue {s : System} (h : s.Sound) {target : UInt64} {event : Fired Event}
    {queue : EventQueue Event} (hpop : s.queue.popDue target = some (event, queue)) :
    Sound { s with queue } := by
  refine ⟨h.coherent.popDue hpop, fun e he => h.kinds e ?_⟩
  obtain ⟨f, rest, hevents, -, -, rfl⟩ :=
    (EventQueue.popDue_eq_some_iff h.coherent target event queue).mp hpop
  rw [hevents]
  exact List.mem_cons_of_mem f he

/-! ## Writes to device registers -/

/-- What a write to a device register does to the queue and the timers: nothing, start a math
unit, set a reload value, or write the control register of a timer. -/
theorem writeIo_cases (s : System) (p : Processor) (lanes : Lanes) (log : Log) (r : IoRegister) :
    ((s.writeIo p lanes log r).1.queue = s.queue ∧
      (s.writeIo p lanes log r).1.timers = s.timers) ∨
    (∃ event delay, (event = .divisionDone ∨ event = .squareRootDone) ∧
      (s.writeIo p lanes log r).1.queue = s.queue.schedule event delay ∧
      (s.writeIo p lanes log r).1.timers = s.timers) ∨
    (∃ i, r = .timerCounter i ∧ (s.writeIo p lanes log r).1.queue = s.queue ∧
      (s.writeIo p lanes log r).1.timers = s.timers.modify p (·.writeReload i lanes)) ∨
    (∃ i, r = .timerControl i ∧
      (s.writeIo p lanes log r).1 = (s.writeTimerControl p i lanes log).1) := by
  cases r with
  | divisionControl | numerator | denominator =>
    exact .inr (.inl ⟨.divisionDone, _, .inl rfl, rfl, rfl⟩)
  | squareRootControl | squareRootInput =>
    exact .inr (.inl ⟨.squareRootDone, _, .inr rfl, rfl, rfl⟩)
  | timerCounter i => exact .inr (.inr (.inl ⟨i, rfl, rfl, rfl⟩))
  | timerControl i => exact .inr (.inr (.inr ⟨i, rfl, rfl⟩))
  | ipcSync =>
    left
    show (s.writeIpc p lanes).queue = _ ∧ (s.writeIpc p lanes).timers = _
    unfold writeIpc
    constructor
    · dsimp only
      split <;> rfl
    · dsimp only
      split <;> rfl
  | _ => exact .inl ⟨rfl, rfl⟩

/-- A write to a control register schedules an overflow if the timer counts time from then on. -/
theorem queue_writeTimerControl (s : System) (p : Processor) (i : Fin 4) (lanes : Lanes)
    (log : Log) :
    (s.writeTimerControl p i lanes log).1 =
      { s with
        timers := s.timers.set p ((s.timers.get p).writeControl i lanes s.queue.now).1
        queue :=
          match ((s.timers.get p).writeControl i lanes s.queue.now).2 with
          | none => s.queue
          | some delay => s.queue.schedule (overflowEvent p i) delay } := by
  unfold writeTimerControl
  generalize (s.timers.get p).writeControl i lanes s.queue.now = outcome
  obtain ⟨timers, delay⟩ := outcome
  cases delay <;> rfl

/-- No device register belongs to the control coprocessor. -/
theorem control_writeIo (s : System) (p : Processor) (l : Lanes) (log : Log)
    (r : IoRegister) : (s.writeIo p l log r).1.control = s.control := by
  cases r with
  | timerControl i =>
    show (s.writeTimerControl p i l log).1.control = _
    rw [queue_writeTimerControl]
  | ipcSync =>
    show (s.writeIpc p l).control = _
    unfold writeIpc
    dsimp only
    split <;> rfl
  | _ => rfl

theorem Sound.writeTimerControl {s : System} (h : s.Sound) (p : Processor) (i : Fin 4)
    (lanes : Lanes) (log : Log) : (s.writeTimerControl p i lanes log).1.Sound := by
  rw [queue_writeTimerControl]
  cases ((s.timers.get p).writeControl i lanes s.queue.now).2 with
  | none => exact h.congr rfl
  | some delay => exact (h.schedule (Event.overflow_known p i) delay).congr rfl

theorem Sound.writeIo {s : System} (h : s.Sound) (p : Processor) (lanes : Lanes) (log : Log)
    (r : IoRegister) : (s.writeIo p lanes log r).1.Sound := by
  rcases s.writeIo_cases p lanes log r with ⟨hqueue, -⟩ | ⟨event, delay, hevent, hqueue, -⟩ |
    ⟨i, -, hqueue, -⟩ | ⟨i, -, hsystem⟩
  · exact h.congr hqueue
  · have hknown : event ∈ Event.known := by
      rcases hevent with rfl | rfl
      · exact Event.divisionDone_known
      · exact Event.squareRootDone_known
    exact (h.schedule hknown delay).congr hqueue
  · exact h.congr hqueue
  · rw [hsystem]
    exact h.writeTimerControl p i lanes log

/-- No write moves the clock. -/
theorem now_writeIo (s : System) (p : Processor) (lanes : Lanes) (log : Log) (r : IoRegister) :
    (s.writeIo p lanes log r).1.queue.now = s.queue.now := by
  rcases s.writeIo_cases p lanes log r with ⟨hqueue, -⟩ | ⟨event, delay, -, hqueue, -⟩ |
    ⟨i, -, hqueue, -⟩ | ⟨i, -, hsystem⟩
  · rw [hqueue]
  · rw [hqueue, EventQueue.now_schedule]
  · rw [hqueue]
  · rw [hsystem, queue_writeTimerControl]
    dsimp only
    split
    · rfl
    · exact EventQueue.now_schedule _ _ _

/-! ## Handling events -/

theorem onTimerOverflow_of_countsTime (s : System) (p : Processor) (i : Fin 4) (lateBy : Int64)
    (log : Log) (h : (s.timers.get p).countsTime i = true) :
    (s.onTimerOverflow p i lateBy log).1 =
      let outcome := (s.timers.get p).onOverflow (s.interrupts.get p) i s.queue.now lateBy
      { s with
        timers := s.timers.set p outcome.1
        interrupts := s.interrupts.set p outcome.2.1
        queue := s.queue.schedule (overflowEvent p i) outcome.2.2 } := by
  unfold onTimerOverflow
  rw [if_pos h]
  rfl

theorem onTimerOverflow_of_not_countsTime (s : System) (p : Processor) (i : Fin 4)
    (lateBy : Int64) (log : Log) (h : (s.timers.get p).countsTime i = false) :
    (s.onTimerOverflow p i lateBy log).1 = s := by
  unfold onTimerOverflow
  rw [if_neg (by simp [h])]

/-- What an event does to the queue and the timers: nothing, or it runs over a timer that counts
time. -/
theorem dispatch_cases (s : System) (event : Fired Event) (log : Log) :
    ((s.dispatch event log).1.queue = s.queue ∧ (s.dispatch event log).1.timers = s.timers ∧
      ∀ p i, event.kind = overflowEvent p i → (s.timers.get p).countsTime i = false) ∨
    (∃ p i, event.kind = overflowEvent p i ∧ (s.timers.get p).countsTime i = true ∧
      (s.dispatch event log).1 = (s.onTimerOverflow p i event.lateBy
        (log.add (.firing event.kind.text event.lateBy))).1) := by
  obtain ⟨kind, lateBy⟩ := event
  cases kind with
  | pause | divisionDone | squareRootDone => exact .inl ⟨rfl, rfl, fun p i h => by cases h⟩
  | timerOverflow timer isArm9 =>
    let log' := log.add (.firing (Event.timerOverflow timer isArm9).text lateBy)
    -- An event may name a timer that does not exist, and then does nothing.
    by_cases hlt : timer.toNat < 4
    · let p : Processor := if isArm9 then .arm9 else .arm7
      let i : Fin 4 := ⟨timer.toNat, hlt⟩
      have hkind : Event.timerOverflow timer isArm9 = overflowEvent p i := by
        have htimer : UInt8.ofNat timer.toNat = timer := UInt8.ofNat_toNat
        unfold overflowEvent
        rw [htimer]
        cases isArm9 <;> rfl
      have hdispatch : (s.dispatch ⟨.timerOverflow timer isArm9, lateBy⟩ log).1 =
          (s.onTimerOverflow p i lateBy log').1 := by
        unfold dispatch
        dsimp only
        rw [dif_pos hlt]
      by_cases hcounts : (s.timers.get p).countsTime i = true
      · exact .inr ⟨p, i, hkind, hcounts, hdispatch⟩
      · rw [Bool.not_eq_true] at hcounts
        left
        rw [hdispatch, s.onTimerOverflow_of_not_countsTime p i lateBy log' hcounts]
        refine ⟨rfl, rfl, ?_⟩
        intro q j h
        obtain ⟨rfl, rfl⟩ := overflowEvent_inj (hkind.symm.trans h)
        exact hcounts
    · left
      have hdispatch : (s.dispatch ⟨.timerOverflow timer isArm9, lateBy⟩ log).1 = s := by
        unfold dispatch
        dsimp only
        rw [dif_neg hlt]
      rw [hdispatch]
      refine ⟨rfl, rfl, ?_⟩
      intro p i h
      have htimer := (Event.timerOverflow.inj h).1
      rw [htimer, UInt8.toNat_ofNat'] at hlt
      omega

/-- What an event does to the queue is to schedule at most one known event. -/
theorem queue_dispatch (s : System) (event : Fired Event) (log : Log) :
    (s.dispatch event log).1.queue = s.queue ∨
    ∃ next ∈ Event.known, ∃ delay,
      (s.dispatch event log).1.queue = s.queue.schedule next delay := by
  rcases s.dispatch_cases event log with ⟨hqueue, -⟩ | ⟨p, i, -, hcounts, hsystem⟩
  · exact .inl hqueue
  · rw [hsystem, onTimerOverflow_of_countsTime _ _ _ _ _ hcounts]
    exact .inr ⟨overflowEvent p i, Event.overflow_known p i, _, rfl⟩

theorem Sound.dispatch {s : System} (h : s.Sound) (event : Fired Event) (log : Log) :
    (s.dispatch event log).1.Sound := by
  rcases s.queue_dispatch event log with hqueue | ⟨next, hnext, delay, hqueue⟩
  · exact h.congr hqueue
  · exact (h.schedule hnext delay).congr hqueue

/-- No event moves the clock. -/
theorem now_dispatch (s : System) (event : Fired Event) (log : Log) :
    (s.dispatch event log).1.queue.now = s.queue.now := by
  rcases s.queue_dispatch event log with hqueue | ⟨next, -, delay, hqueue⟩
  · rw [hqueue]
  · rw [hqueue, EventQueue.now_schedule]

end System

namespace Session

/-! ## Lowering the clocks -/

theorem rebase_of_lt {s : Session} (h : s.system.queue.now < EventQueue.rebaseAt) :
    s.rebase = s := by
  unfold rebase
  rw [EventQueue.rebase_of_lt h]
  rfl

theorem system_rebase_of_le {s : Session} (h : ¬ s.system.queue.now < EventQueue.rebaseAt) :
    s.rebase.system =
      { s.system with
        queue := s.system.queue.rebase.2
        timers := s.system.timers.map (·.rebase EventQueue.rebaseAt) } := by
  unfold rebase
  rw [EventQueue.rebase_of_le h]
  rfl

/-- Lowering the clocks keeps the queue sound, unless an event is far below zero. -/
theorem sound_rebase {s : Session} (h : s.system.Sound)
    (hrange : ∀ e ∈ s.system.queue.events, 0 ≤ e.time.toInt) : s.rebase.system.Sound := by
  by_cases hlow : s.system.queue.now < EventQueue.rebaseAt
  · rwa [rebase_of_lt hlow]
  · rw [system_rebase_of_le hlow]
    refine ⟨h.coherent.rebase fun e he => ?_, fun e he => ?_⟩
    · have hpositive := hrange e he
      omega
    · rw [EventQueue.rebase_of_le hlow] at he
      obtain ⟨e', he', rfl⟩ := List.mem_map.mp he
      exact h.kinds e' he'

/-- The clock is lowered by what the queue says. -/
theorem toNat_now_rebase (s : Session) :
    (s.rebase.now.toNat : ℤ) = s.now.toNat - s.system.queue.rebase.1.toNat := by
  have hbias : EventQueue.rebaseAt.toNat = 0xF0000000 := rfl
  by_cases hlow : s.system.queue.now < EventQueue.rebaseAt
  · rw [rebase_of_lt hlow, EventQueue.rebase_of_lt hlow]
    show (s.now.toNat : ℤ) = s.now.toNat - 0
    omega
  · unfold now
    rw [system_rebase_of_le hlow, EventQueue.rebase_of_le hlow]
    show ((s.system.queue.now - EventQueue.rebaseAt).toNat : ℤ) =
      s.system.queue.now.toNat - EventQueue.rebaseAt.toNat
    rw [UInt64.lt_iff_toNat_lt] at hlow
    rw [UInt64.toNat_sub_of_le _ _ (UInt64.le_iff_toNat_le.mpr (by omega))]
    omega

end Session
end Handheld.Console
