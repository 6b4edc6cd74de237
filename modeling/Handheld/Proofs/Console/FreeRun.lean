import Mathlib
import Handheld.Proofs.Console.Recording
import Handheld.Proofs.Console.Scheduling
import Handheld.Proofs.Console.TimerRegisters

/-!
# A timer that is left alone

A timer that was switched on and counts time, from the moment of its start on. Its counter is kept
nowhere: `FreeRun.Holds` says how the time of its start, the one event that waits for it and the
record of its overflows determine each other. Nothing but a write to one of the timer's own two
registers can disturb this; the lemmas here go through everything else that happens to a system.
-/

namespace Handheld.Console

/-! ## Reading a record -/

namespace Happening

/-- Whether the entry is a write to one of the two registers of a timer. -/
def touches (p : Processor) (i : Fin 4) : Happening → Prop
  | .wrote q r _ _ => q = p ∧ (r = .timerCounter i ∨ r = .timerControl i)
  | .fired .. | .lowered _ => False

/-- By how much the clocks were lowered. -/
def loweredBy : List Happening → ℕ
  | [] => 0
  | .lowered amount :: t => amount.toNat + loweredBy t
  | .wrote .. :: t | .fired .. :: t => loweredBy t

/-- The overflows of a timer, each with the time at which it was handled and by how much it was
late. Times count on over a lowering of the clocks; `base` is what was lowered before. -/
def overflows (p : Processor) (i : Fin 4) : (base : ℕ) → List Happening → List (ℕ × Int64)
  | _, [] => []
  | base, .lowered amount :: t => overflows p i (base + amount.toNat) t
  | base, .fired event now :: t =>
    if event.kind = System.overflowEvent p i then
      (now.toNat + base, event.lateBy) :: overflows p i base t
    else overflows p i base t
  | base, .wrote .. :: t => overflows p i base t

theorem loweredBy_append (t u : List Happening) :
    loweredBy (t ++ u) = loweredBy t + loweredBy u := by
  induction t with
  | nil => rw [List.nil_append, loweredBy, Nat.zero_add]
  | cons h t ih =>
    cases h with
    | lowered amount => rw [List.cons_append, loweredBy, loweredBy, ih, Nat.add_assoc]
    | wrote | fired => exact ih

theorem overflows_append (p : Processor) (i : Fin 4) (base : ℕ) (t u : List Happening) :
    overflows p i base (t ++ u) = overflows p i base t ++ overflows p i (base + loweredBy t) u := by
  induction t generalizing base with
  | nil => rfl
  | cons h t ih =>
    cases h with
    | lowered amount => rw [List.cons_append, overflows, overflows, loweredBy, ih, Nat.add_assoc]
    | fired event now =>
      rw [List.cons_append, overflows, overflows, loweredBy]
      split
      · rw [ih, List.cons_append]
      · exact ih base
    | wrote => exact ih base

end Happening

open Happening

/-! ## The state of a free run -/

/-- The start of a timer that counts time, with what it was set to. -/
structure FreeRun where
  cpu : Processor
  timer : Fin 4
  control : TimerControl
  reload : UInt16
  /-- The queue's clock at the start. -/
  start : ℕ

namespace FreeRun

/-- The event of the timer's overflow. -/
def event (f : FreeRun) : Event := System.overflowEvent f.cpu f.timer

/-- Cycles between two overflows. -/
def period (f : FreeRun) : ℕ := f.control.period f.reload

/-- When the overflow after `count` others is due, on a clock that was lowered by `lowered`. -/
def due (f : FreeRun) (count lowered : ℕ) : ℤ := f.start + (count + 1) * f.period - lowered

/-- What is true of the system once the timer has run over `count` times, `t` being the record
since its start: the timer is as it was set, its time runs from the last overflow, one event
waits, and every overflow came in time. -/
structure Holds (f : FreeRun) (s : System) (t : List Happening) (count : ℕ) : Prop where
  reload : (s.timers.get f.cpu).reload.get f.timer = f.reload
  control : (s.timers.get f.cpu).control.get f.timer = f.control
  counter : (s.timers.get f.cpu).counters.get f.timer = f.reload
  counts : f.control.countsTime f.timer = true
  elapsed : ((s.queue.now - (s.timers.get f.cpu).startedAt.get f.timer).toNat : ℤ) =
    s.queue.now.toNat - (f.due count (loweredBy t) - f.period)
  waits : ∃ e ∈ s.queue.events, e.kind = f.event ∧ e.time.toInt = f.due count (loweredBy t)
  handled : overflows f.cpu f.timer 0 t =
    (List.range count).map fun k => (f.start + (k + 1) * f.period, 0)

variable {f : FreeRun} {s s' : System} {t : List Happening} {count : ℕ}

theorem period_bounds (f : FreeRun) : 2 ≤ f.period ∧ f.period ≤ 2 ^ 27 :=
  f.control.period_bounds f.reload

theorem due_succ (f : FreeRun) (count lowered : ℕ) :
    f.due (count + 1) lowered = f.due count lowered + f.period := by
  unfold due
  push_cast
  ring

theorem due_lower (f : FreeRun) (count lowered amount : ℕ) :
    f.due count (lowered + amount) = f.due count lowered - amount := by
  unfold due
  push_cast
  ring

theorem Holds.countsTime (h : f.Holds s t count) :
    (s.timers.get f.cpu).countsTime f.timer = true := by
  unfold Timers.countsTime
  rw [Timers.getElem_eq_get, h.control]
  exact h.counts

/-- Entries that are no overflows of the timer and lower no clock do not matter. -/
theorem Holds.append (h : f.Holds s t count) {u : List Happening} (hlowered : loweredBy u = 0)
    (hnone : overflows f.cpu f.timer (loweredBy t) u = []) : f.Holds s (t ++ u) count := by
  have hsum : loweredBy (t ++ u) = loweredBy t := by
    rw [loweredBy_append, hlowered, Nat.add_zero]
  refine ⟨h.reload, h.control, h.counter, h.counts, ?_, ?_, ?_⟩
  · rw [hsum]
    exact h.elapsed
  · rw [hsum]
    exact h.waits
  · rw [overflows_append, Nat.zero_add, hnone, List.append_nil]
    exact h.handled

/-- What leaves the timer's registers and its event alone and moves the clock on, though not past
the event, does not disturb a free run. -/
theorem Holds.frame (h : f.Holds s t count)
    (hsame : Timers.SameAt f.timer (s.timers.get f.cpu) (s'.timers.get f.cpu))
    (hnow : s.queue.now.toNat ≤ s'.queue.now.toNat)
    (hdue : (s'.queue.now.toNat : ℤ) ≤ f.due count (loweredBy t))
    (hwaits : ∀ e ∈ s.queue.events, e.kind = f.event → e ∈ s'.queue.events) :
    f.Holds s' t count := by
  refine ⟨hsame.reload.trans h.reload, hsame.control.trans h.control,
    hsame.counter.trans h.counter, h.counts, ?_, ?_, h.handled⟩
  · -- Clock and start are words, but their difference is less than the clock, so it does not wrap.
    have helapsed := h.elapsed
    have hbound := f.period_bounds.2
    have hlt := s'.queue.now.toNat_lt
    have hlt' := ((s.timers.get f.cpu).startedAt.get f.timer).toNat_lt
    rw [hsame.startedAt]
    rw [UInt64.toNat_sub] at helapsed ⊢
    omega
  · obtain ⟨e, he, hkind, htime⟩ := h.waits
    exact ⟨e, hwaits e he hkind, hkind, htime⟩

/-- The same with the clock standing still. -/
theorem Holds.frame_still (h : f.Holds s t count)
    (hdue : (s.queue.now.toNat : ℤ) ≤ f.due count (loweredBy t))
    (hsame : Timers.SameAt f.timer (s.timers.get f.cpu) (s'.timers.get f.cpu))
    (hnow : s'.queue.now = s.queue.now)
    (hwaits : ∀ e ∈ s.queue.events, e.kind = f.event → e ∈ s'.queue.events) :
    f.Holds s' t count := by
  refine h.frame hsame (by rw [hnow]) ?_ hwaits
  rw [hnow]
  exact hdue

/-! ## The start -/

/-- Switching a timer on so that it counts time starts a free run. -/
theorem holds_start {s : System} (hsound : s.Sound) (hrange : s.queue.now.toNat < 2 ^ 62)
    {p : Processor} {i : Fin 4} (lanes : Lanes) (log : Log) {s' : System}
    (hs' : s' = (s.writeIo p lanes log (.timerControl i)).1)
    (hoff : ((s.timers.get p).control.get i).isEnabled = false)
    (hon : (s'.timers.get p).countsTime i = true) :
    let f : FreeRun :=
      ⟨p, i, (s'.timers.get p).control.get i, (s'.timers.get p).reload.get i, s.queue.now.toNat⟩
    f.Holds s' [] 0 := by
  intro f
  have hbound := f.period_bounds.2
  have hwritten : s' = (s.writeTimerControl p i lanes log).1 := hs'
  rw [System.queue_writeTimerControl] at hwritten
  have htimers : s'.timers.get p = ((s.timers.get p).writeControl i lanes s.queue.now).1 := by
    rw [hwritten]
    exact PerProcessor.get_set_self _ _ _
  have hstart := Timers.writeControl_start hoff (by rw [← htimers]; exact hon)
  rw [← htimers] at hstart
  obtain ⟨hcounter, hstarted, hdelay⟩ := hstart
  rw [hdelay] at hwritten
  let delay := (Timers.untilOverflow f.reload f.control).toUInt64.toInt64
  have hqueue : s'.queue = s.queue.schedule f.event delay := congrArg System.queue hwritten
  have hnow : s'.queue.now = s.queue.now := by rw [hqueue, EventQueue.now_schedule]
  have hperiod : delay.toInt = f.period := Timers.toInt_untilOverflow f.reload f.control
  have hdue : f.due 0 (loweredBy []) = s.queue.now.toNat + f.period := by
    unfold due loweredBy
    push_cast
    ring
  refine ⟨rfl, rfl, hcounter, hon, ?_, ⟨⟨f.event, s.queue.dueTime delay⟩, ?_, rfl, ?_⟩, rfl⟩
  · show ((s'.queue.now - (s'.timers.get p).startedAt.get i).toNat : ℤ) = _
    rw [hstarted, hnow, UInt64.sub_self, hdue]
    show (0 : ℤ) = _
    ring
  · rw [hqueue, EventQueue.mem_schedule hsound.coherent (hsound.room _)]
    exact .inl rfl
  · rw [hdue, ← hperiod]
    exact s.queue.toInt_dueTime (by omega) (by omega) (by omega)

/-! ## Writes to other registers -/

theorem sameAt_set {x : PerProcessor Timers} {p q : Processor} {i : Fin 4} {timers : Timers}
    (h : q = p → Timers.SameAt i (x.get p) timers) :
    Timers.SameAt i (x.get p) ((x.set q timers).get p) := by
  by_cases hq : q = p
  · subst hq
    rw [PerProcessor.get_set_self]
    exact h rfl
  · have hother : p = q.other := by cases p <;> cases q <;> first | rfl | contradiction
    rw [hother, PerProcessor.get_set_other]
    exact .refl i _

/-- Scheduling another event leaves the timer's event alone. -/
theorem waits_schedule (hsound : s.Sound) {event : Event} (hevent : event ≠ f.event)
    (delay : Int64) :
    ∀ e ∈ s.queue.events, e.kind = f.event → e ∈ (s.queue.schedule event delay).events := by
  intro e he hkind
  rw [EventQueue.mem_schedule hsound.coherent (hsound.room event)]
  exact .inr ⟨he, fun h => hevent (h.symm.trans hkind)⟩

/-- A write to any register but the timer's own two does not disturb a free run. -/
theorem Holds.writeIo (h : f.Holds s t count) (hsound : s.Sound)
    (hdue : (s.queue.now.toNat : ℤ) ≤ f.due count (loweredBy t)) (p : Processor) (lanes : Lanes)
    (log : Log) (r : IoRegister)
    (hother : ¬ (Happening.wrote p r s (s.writeIo p lanes log r).1).touches f.cpu f.timer) :
    f.Holds (s.writeIo p lanes log r).1 t count := by
  have hnow := s.now_writeIo p lanes log r
  rcases s.writeIo_cases p lanes log r with ⟨hqueue, htimers⟩ |
    ⟨event, delay, hevent, hqueue, htimers⟩ | ⟨i, rfl, hqueue, htimers⟩ | ⟨i, rfl, hsystem⟩
  · refine h.frame_still hdue ?_ hnow ?_
    · rw [htimers]
      exact .refl _ _
    · rw [hqueue]
      exact fun e he _ => he
  · refine h.frame_still hdue ?_ hnow ?_
    · rw [htimers]
      exact .refl _ _
    · rw [hqueue]
      refine waits_schedule hsound (fun heq => ?_) delay
      rw [heq] at hevent
      rcases hevent with hevent | hevent <;> cases hevent
  · have hne : p = f.cpu → f.timer ≠ i := fun hp hi => hother ⟨hp, .inl (by rw [hi])⟩
    refine h.frame_still hdue ?_ hnow ?_
    · rw [htimers]
      have hset : s.timers.modify p (·.writeReload i lanes) =
          s.timers.set p ((s.timers.get p).writeReload i lanes) := by cases p <;> rfl
      rw [hset]
      apply sameAt_set
      intro hp
      rw [hp]
      exact Timers.sameAt_writeReload _ (hne hp) lanes
    · rw [hqueue]
      exact fun e he _ => he
  · have hne : p = f.cpu → f.timer ≠ i := fun hp hi => hother ⟨hp, .inr (by rw [hi])⟩
    refine h.frame_still hdue ?_ hnow ?_
    · rw [hsystem, System.queue_writeTimerControl]
      apply sameAt_set
      intro hp
      rw [hp]
      exact Timers.sameAt_writeControl _ (hne hp) lanes _
    · rw [hsystem, System.queue_writeTimerControl]
      dsimp only
      split
      · exact fun e he _ => he
      · refine waits_schedule hsound (fun heq => ?_) _
        obtain ⟨hp, hi⟩ := System.overflowEvent_inj heq
        exact hne hp hi.symm

/-! ## Events -/

/-- The free run goes on, and its next overflow is yet to come. -/
def Ahead (f : FreeRun) (s : System) (t : List Happening) : Prop :=
  ∃ count, f.Holds s t count ∧ (s.queue.now.toNat : ℤ) < f.due count (loweredBy t)

/-- The free run goes on while events are fired up to a time. Its next overflow may be due now,
but then it is among these events. -/
def Within (f : FreeRun) (target : UInt64) (s : System) (t : List Happening) : Prop :=
  ∃ count, f.Holds s t count ∧ (s.queue.now.toNat : ℤ) ≤ f.due count (loweredBy t) ∧
    ((s.queue.now.toNat : ℤ) < f.due count (loweredBy t) ∨
      f.due count (loweredBy t) ≤ target.toNat)

theorem Ahead.within (h : f.Ahead s t) (target : UInt64) : f.Within target s t := by
  obtain ⟨count, hholds, hlt⟩ := h
  exact ⟨count, hholds, Int.le_of_lt hlt, .inl hlt⟩

/-- Another event does not disturb a free run, not even the overflow of another timer. -/
theorem Holds.dispatch_other (h : f.Holds s t count) (hsound : s.Sound)
    (hdue : (s.queue.now.toNat : ℤ) ≤ f.due count (loweredBy t)) {event : Fired Event}
    (hevent : event.kind ≠ f.event) (log : Log) :
    f.Holds (s.dispatch event log).1 (t ++ [.fired event s.queue.now]) count := by
  have hnow := s.now_dispatch event log
  refine Holds.append ?_ rfl (if_neg hevent)
  rcases s.dispatch_cases event log with ⟨hqueue, htimers, -⟩ | ⟨p, i, hkind, hcounts, hsystem⟩
  · refine h.frame_still hdue ?_ hnow ?_
    · rw [htimers]
      exact .refl _ _
    · rw [hqueue]
      exact fun e he _ => he
  · have hne : System.overflowEvent p i ≠ f.event := fun heq => hevent (hkind.trans heq)
    rw [hsystem, System.onTimerOverflow_of_countsTime _ _ _ _ _ hcounts] at hnow ⊢
    refine h.frame_still hdue (sameAt_set fun hp => ?_) hnow (waits_schedule hsound hne _)
    subst hp
    have hi : f.timer ≠ i := fun hi => hne (by rw [FreeRun.event, hi])
    exact Timers.sameAt_onOverflow _ _ hi h.countsTime _ _

/-- A timer that counts time and whose event is fired at its time starts anew, and so does the way
to its next overflow. -/
theorem dispatch_overflow {p : Processor} {i : Fin 4}
    (hcounts : (s.timers.get p).countsTime i = true) (log : Log) :
    let s' := (s.dispatch ⟨System.overflowEvent p i, 0⟩ log).1
    (s'.timers.get p).reload.get i = (s.timers.get p).reload.get i ∧
    (s'.timers.get p).control.get i = (s.timers.get p).control.get i ∧
    (s'.timers.get p).counters.get i = (s.timers.get p).reload.get i ∧
    (s'.timers.get p).startedAt.get i = s.queue.now ∧
    s'.queue = s.queue.schedule (System.overflowEvent p i)
      (Timers.untilOverflow ((s.timers.get p).reload.get i)
        ((s.timers.get p).control.get i)).toUInt64.toInt64 := by
  intro s'
  have hsystem : s' = (s.onTimerOverflow p i 0
      (log.add (.firing (System.overflowEvent p i).text 0))).1 := by
    rcases s.dispatch_cases ⟨System.overflowEvent p i, 0⟩ log with
      ⟨-, -, hnone⟩ | ⟨q, j, hkind, -, hsystem⟩
    · rw [hnone p i rfl] at hcounts
      cases hcounts
    · obtain ⟨rfl, rfl⟩ := System.overflowEvent_inj hkind
      exact hsystem
  rw [System.onTimerOverflow_of_countsTime _ _ _ _ _ hcounts] at hsystem
  obtain ⟨hreload, hcontrol, hcounter, hstarted, hdelay⟩ :=
    Timers.onOverflow_self (s.timers.get p) (s.interrupts.get p) i s.queue.now 0
  have htimers : s'.timers.get p =
      ((s.timers.get p).onOverflow (s.interrupts.get p) i s.queue.now 0).1 := by
    rw [hsystem]
    exact PerProcessor.get_set_self _ _ _
  rw [htimers]
  refine ⟨hreload, hcontrol, hcounter, ?_, ?_⟩
  · rw [hstarted]
    exact UInt64.sub_zero _
  · rw [hsystem]
    dsimp only
    rw [hdelay, Int64.sub_zero]

/-- The timer's own event, taken from the queue and fired at its time, runs the timer over and is
scheduled anew. -/
theorem Holds.dispatch_self (h : f.Holds s t count) {popped : System}
    (hpopped : popped.timers = s.timers) (hsound : popped.Sound)
    (hdue : (popped.queue.now.toNat : ℤ) = f.due count (loweredBy t))
    (hrange : popped.queue.now.toNat < clockBound) (log : Log) :
    f.Holds (popped.dispatch ⟨f.event, 0⟩ log).1
      (t ++ [.fired ⟨f.event, 0⟩ popped.queue.now]) (count + 1) := by
  have hbound := f.period_bounds.2
  have hclock : clockBound = 2 ^ 62 + 2 ^ 32 := rfl
  have hcounts := h.countsTime
  rw [← hpopped] at hcounts
  obtain ⟨hreload, hcontrol, hcounter, hstarted, hqueue⟩ := dispatch_overflow hcounts log
  rw [hpopped, h.reload] at hreload hcounter hqueue
  rw [hpopped, h.control] at hcontrol
  rw [h.control] at hqueue
  let s' := (popped.dispatch ⟨f.event, 0⟩ log).1
  let delay := (Timers.untilOverflow f.reload f.control).toUInt64.toInt64
  have hnow : s'.queue.now = popped.queue.now := popped.now_dispatch ⟨f.event, 0⟩ log
  have hperiod : delay.toInt = f.period := Timers.toInt_untilOverflow f.reload f.control
  have hlowered : loweredBy (t ++ [.fired ⟨f.event, 0⟩ popped.queue.now]) = loweredBy t := by
    rw [loweredBy_append]
    rfl
  refine ⟨hreload, hcontrol, hcounter, h.counts, ?_,
    ⟨⟨f.event, popped.queue.dueTime delay⟩, ?_, rfl, ?_⟩, ?_⟩
  · -- The timer starts at the time of its event, a period before the next one.
    have hstarted' : (s'.timers.get f.cpu).startedAt.get f.timer = popped.queue.now := hstarted
    rw [hlowered, hstarted', hnow, due_succ, UInt64.sub_self, ← hdue]
    show (0 : ℤ) = _
    ring
  · have hqueue' : s'.queue = popped.queue.schedule f.event delay := hqueue
    rw [hqueue', EventQueue.mem_schedule hsound.coherent (hsound.room _)]
    exact .inl rfl
  · rw [hlowered, due_succ, ← hdue, ← hperiod]
    exact popped.queue.toInt_dueTime (by omega) (by omega) (by omega)
  · have htime : popped.queue.now.toNat + (0 + loweredBy t) = f.start + (count + 1) * f.period := by
      unfold due at hdue
      zify
      omega
    have hself : overflows f.cpu f.timer (0 + loweredBy t)
        [.fired ⟨f.event, 0⟩ popped.queue.now] =
          [(popped.queue.now.toNat + (0 + loweredBy t), 0)] := if_pos rfl
    rw [overflows_append, h.handled, hself, htime, List.range_succ, List.map_append]
    rfl

/-- The first event that waits comes no later than the timer's own, and is at its time if it is
the timer's own. -/
theorem Holds.first (h : f.Holds s t count) (hsound : s.Sound) {e : Pending Event}
    {rest : List (Pending Event)} (hevents : s.queue.events = e :: rest) :
    e.time.toInt ≤ f.due count (loweredBy t) ∧
      (e.kind = f.event → e.time.toInt = f.due count (loweredBy t)) := by
  have hsorted := hsound.coherent.sorted
  have hdistinct := hsound.coherent.distinct
  rw [hevents] at hsorted hdistinct
  obtain ⟨w, hw, hkind, htime⟩ := h.waits
  rw [hevents] at hw
  rw [← htime]
  rcases List.mem_cons.mp hw with rfl | hmem
  · exact ⟨le_rfl, fun _ => rfl⟩
  · refine ⟨Int64.le_iff_toInt_le.mp ((List.pairwise_cons.mp hsorted).1 w hmem), ?_⟩
    intro hown
    -- No two events of one kind wait.
    have hnot := (List.nodup_cons.mp hdistinct).1
    exact absurd (List.mem_map.mpr ⟨w, hmem, hkind.trans hown.symm⟩) hnot

/-- The event that is taken from the queue is the timer's own one, and in time, or it is another
one that does not come later. -/
theorem Holds.popDue (h : f.Holds s t count) (hsound : s.Sound)
    (hle : (s.queue.now.toNat : ℤ) ≤ f.due count (loweredBy t)) {target : UInt64}
    (hrange : target.toNat < clockBound) (hnow : s.queue.now.toNat < clockBound)
    {event : Fired Event} {queue : EventQueue Event}
    (hpop : s.queue.popDue target = some (event, queue)) :
    (event = ⟨f.event, 0⟩ ∧ (queue.now.toNat : ℤ) = f.due count (loweredBy t)) ∨
    (event.kind ≠ f.event ∧ f.Holds { s with queue } t count ∧
      (queue.now.toNat : ℤ) ≤ f.due count (loweredBy t)) := by
  have hclock : clockBound = 2 ^ 62 + 2 ^ 32 := rfl
  obtain ⟨e, rest, hevents, hdue, rfl, hqueue⟩ :=
    (EventQueue.popDue_eq_some_iff hsound.coherent target event queue).mp hpop
  rw [Int64.le_iff_toInt_le, toInt_toInt64 (by omega)] at hdue
  obtain ⟨hfirst, hself⟩ := h.first hsound hevents
  have hclamp := EventQueue.toNat_clampTime e.time
  have hmax : (queue.now.toNat : ℤ) = max (s.queue.now.toNat : ℤ) (max 0 e.time.toInt) := by
    have hnow' : queue.now = max s.queue.now (EventQueue.clampTime e.time) := by
      rw [hqueue]
      rfl
    rw [hnow', EventQueue.toNat_max]
    omega
  by_cases hown : e.kind = f.event
  · -- The clock has not passed the event, so it is fired at its time.
    have htime := hself hown
    have hlate : (max s.queue.now (EventQueue.clampTime e.time)).toInt64 - e.time = 0 := by
      have heq : (max s.queue.now (EventQueue.clampTime e.time)).toInt64 = e.time := by
        rw [← Int64.toInt_inj, toInt_toInt64 (by rw [EventQueue.toNat_max]; omega),
          EventQueue.toNat_max]
        omega
      rw [heq, Int64.sub_self]
    rw [hlate, hown]
    exact .inl ⟨rfl, by omega⟩
  · refine .inr ⟨hown, h.frame (.refl _ _) ?_ ?_ fun e' he' hkind' => ?_, by omega⟩
    · show s.queue.now.toNat ≤ queue.now.toNat
      omega
    · show (queue.now.toNat : ℤ) ≤ _
      omega
    · show e' ∈ queue.events
      rw [hevents] at he'
      rw [hqueue]
      rcases List.mem_cons.mp he' with rfl | hmem
      · exact absurd hkind' hown
      · exact hmem

/-- Firing one event keeps a free run within its bounds. -/
theorem Within.fire {target : UInt64} (h : f.Within target s t) (hsound : s.Sound)
    (hrange : target.toNat < clockBound) (hnow : s.queue.now.toNat < clockBound)
    {event : Fired Event} {queue : EventQueue Event}
    (hpop : s.queue.popDue target = some (event, queue)) (log : Log) :
    f.Within target (({ s with queue } : System).dispatch event log).1
      (t ++ [.fired event queue.now]) := by
  obtain ⟨count, hholds, hle, hwithin⟩ := h
  have hsound' := hsound.popDue hpop
  have hmoved := EventQueue.toNat_now_popDue hsound.coherent hpop
  have hclock := System.now_dispatch { s with queue } event log
  have hlowered : loweredBy (t ++ [.fired event queue.now]) = loweredBy t := by
    rw [loweredBy_append]
    rfl
  rcases hholds.popDue hsound hle hrange hnow hpop with ⟨rfl, hdue⟩ | ⟨hother, hholds', hdue⟩
  · -- The next overflow is a whole period away.
    have hbound := f.period_bounds.1
    have hrange' : queue.now.toNat < clockBound := by omega
    have htimers : System.timers { s with queue } = s.timers := rfl
    have hnext := hholds.dispatch_self htimers hsound' hdue hrange' log
    refine ⟨count + 1, hnext, ?_, .inl ?_⟩
    · rw [hclock, hlowered, due_succ]
      show (queue.now.toNat : ℤ) ≤ _
      omega
    · rw [hclock, hlowered, due_succ]
      show (queue.now.toNat : ℤ) < _
      omega
  · have hnext := hholds'.dispatch_other hsound' hdue hother log
    refine ⟨count, hnext, ?_, ?_⟩
    · rw [hclock, hlowered]
      exact hdue
    · rw [hclock, hlowered]
      show (queue.now.toNat : ℤ) < _ ∨ _
      omega

/-- Once nothing more is due, the next overflow is yet to come. -/
theorem Within.pass {target : UInt64} (h : f.Within target s t) (hsound : s.Sound)
    (hrange : target.toNat < clockBound) (hpop : s.queue.popDue target = none) :
    f.Ahead { s with queue := { s.queue with now := max s.queue.now target } } t := by
  have hclock : clockBound = 2 ^ 62 + 2 ^ 32 := rfl
  obtain ⟨count, hholds, hle, hwithin⟩ := h
  obtain ⟨w, hw, -, htime⟩ := hholds.waits
  have hlater := (EventQueue.popDue_eq_none_iff hsound.coherent target).mp hpop w hw
  rw [Int64.lt_iff_toInt_lt, toInt_toInt64 (by omega), htime] at hlater
  have hmax := EventQueue.toNat_max s.queue.now target
  refine ⟨count, hholds.frame (.refl _ _) ?_ ?_ fun e he _ => he, ?_⟩
  · show s.queue.now.toNat ≤ (max s.queue.now target).toNat
    omega
  · show ((max s.queue.now target).toNat : ℤ) ≤ _
    omega
  · show ((max s.queue.now target).toNat : ℤ) < _
    omega

/-- Firing all events that are due leaves a free run with its next overflow yet to come. -/
theorem Within.settle {target : UInt64} (hrange : target.toNat < clockBound) {fuel : Nat}
    {s s' : System} {t : List Happening} {log log' : Log} (h : f.Within target s t)
    (hsound : s.Sound) (hnow : s.queue.now.toNat < clockBound)
    (hsettle : Session.settleWithin fuel target s log = some (s', log')) :
    f.Ahead s' (t ++ Session.settleTrace fuel target s log) := by
  induction fuel using Nat.strong_induction_on generalizing s t log with
  | _ fuel ih =>
    rcases Session.settle_inversion hsettle with ⟨hpop, rfl, htrace⟩ |
      ⟨left, event, queue, rfl, hpop, hrest, htrace⟩
    · rw [htrace, List.append_nil]
      exact h.pass hsound hrange hpop
    · have hfire := h.fire hsound hrange hnow hpop log
      have hmoved := EventQueue.toNat_now_popDue hsound.coherent hpop
      have hnow' : (({ s with queue } : System).dispatch event log).1.queue.now.toNat <
          clockBound := by
        rw [System.now_dispatch]
        show queue.now.toNat < clockBound
        omega
      have hnext := ih left (Nat.lt_succ_self left) hfire ((hsound.popDue hpop).dispatch event log)
        hnow' hrest
      rwa [List.append_assoc, List.singleton_append, ← htrace] at hnext

/-! ## Lowering the clocks -/

theorem get_map {α β : Type} (x : PerProcessor α) (g : α → β) (p : Processor) :
    (x.map g).get p = g (x.get p) := by cases p <;> rfl

/-- The difference of two clocks does not change when both are lowered. -/
theorem sub_sub_sub (a b amount : UInt64) : (a - amount) - (b - amount) = a - b := by
  rw [← UInt64.toNat_inj]
  have ha := a.toNat_lt
  have hb := b.toNat_lt
  have hamount := amount.toNat_lt
  simp only [UInt64.toNat_sub]
  omega

/-- Lowering all clocks lowers the start of a free run, its next overflow and the time of its
event alike. -/
theorem Holds.lower {s : Session} (h : f.Holds s.system t count)
    (hlow : ¬ s.system.queue.now < EventQueue.rebaseAt)
    (hpositive : ∀ e ∈ s.system.queue.events, 0 ≤ e.time.toInt) :
    f.Holds s.rebase.system (t ++ [.lowered EventQueue.rebaseAt]) count := by
  have hsystem := Session.system_rebase_of_le hlow
  rw [EventQueue.rebase_of_le hlow] at hsystem
  have hclock : (s.rebase.system.queue.now.toNat : ℤ) =
      s.system.queue.now.toNat - EventQueue.rebaseAt.toNat := by
    have hnow := s.toNat_now_rebase
    rwa [EventQueue.rebase_of_le hlow] at hnow
  have hdue : f.due count (loweredBy (t ++ [.lowered EventQueue.rebaseAt])) =
      f.due count (loweredBy t) - EventQueue.rebaseAt.toNat := by
    rw [loweredBy_append, ← due_lower]
    rfl
  have htimers : s.rebase.system.timers.get f.cpu =
      (s.system.timers.get f.cpu).rebase EventQueue.rebaseAt := by
    rw [hsystem]
    exact get_map _ _ _
  have hstarted : ((s.system.timers.get f.cpu).rebase EventQueue.rebaseAt).startedAt.get f.timer =
      (s.system.timers.get f.cpu).startedAt.get f.timer - EventQueue.rebaseAt := by
    simp only [Timers.rebase, Vector.get_eq_getElem, Vector.getElem_map]
  have hnow : s.rebase.system.queue.now = s.system.queue.now - EventQueue.rebaseAt := by
    rw [hsystem]
    rfl
  refine ⟨?_, ?_, ?_, h.counts, ?_, ?_, ?_⟩
  · rw [htimers]
    exact h.reload
  · rw [htimers]
    exact h.control
  · rw [htimers]
    exact h.counter
  · -- Start and clock are lowered alike, so their difference stays.
    rw [htimers, hstarted, hclock, hdue, hnow, sub_sub_sub, h.elapsed]
    ring
  · obtain ⟨e, he, hkind, htime⟩ := h.waits
    have hlowest := hpositive e he
    refine ⟨e.lower EventQueue.rebaseAt.toInt64, ?_, hkind, ?_⟩
    · rw [hsystem]
      exact List.mem_map.mpr ⟨e, he, rfl⟩
    · rw [hdue, EventQueue.toInt_time_lower (by omega), htime]
      rfl
  · rw [overflows_append, h.handled]
    exact List.append_nil _

/-- Lowering all clocks does not disturb a free run. -/
theorem Ahead.rebase {s : Session} (h : f.Ahead s.system t)
    (hpositive : ∀ e ∈ s.system.queue.events, 0 ≤ e.time.toInt) :
    f.Ahead s.rebase.system (t ++ [.lowered s.system.queue.rebase.1]) := by
  obtain ⟨count, hholds, hlt⟩ := h
  refine ⟨count, ?_, ?_⟩
  · by_cases hlow : s.system.queue.now < EventQueue.rebaseAt
    · rw [Session.rebase_of_lt hlow, EventQueue.rebase_of_lt hlow]
      exact hholds.append rfl rfl
    · have hlowered := hholds.lower hlow hpositive
      rwa [EventQueue.rebase_of_le hlow]
  · have hdue : f.due count (loweredBy (t ++ [.lowered s.system.queue.rebase.1])) =
        f.due count (loweredBy t) - s.system.queue.rebase.1.toNat := by
      rw [loweredBy_append, ← due_lower]
      rfl
    rw [hdue]
    show (s.rebase.now.toNat : ℤ) < _
    rw [s.toNat_now_rebase]
    exact Int.sub_lt_sub_right hlt _

end FreeRun
end Handheld.Console
