import Handheld.Proofs.Console.Completions

/-!
# What the timers wait for

A timer that counts time always has its next overflow waiting, at the time that follows from when
it was started and from what its counter was then: `System.ticks_chronicle`. Any write to its
control register, any overflow and any change of the clock may come in between.
-/

namespace Handheld.Console

namespace System

/-! ## The next overflow -/

/-- Cycles since a timer that counts time was started. -/
def elapsed (s : System) (p : Processor) (i : Fin 4) : ℕ :=
  (s.queue.now - (s.timers.get p).startedAt.get i).toNat

/-- When a timer that counts time runs over next. -/
def overflowTime (s : System) (p : Processor) (i : Fin 4) : ℤ :=
  s.queue.now.toNat - s.elapsed p i +
    ((s.timers.get p).control.get i).period ((s.timers.get p).counters.get i)

/-- As long as a timer counts time, its next overflow waits. -/
def Ticks (p : Processor) (i : Fin 4) (s : System) : Prop :=
  (s.timers.get p).countsTime i = true →
    ∃ e ∈ s.queue.events, e.kind = overflowEvent p i ∧ e.time.toInt = s.overflowTime p i

variable {p : Processor} {i : Fin 4} {s s' : System}

theorem countsTime_congr {t t' : Timers} (h : t'.control.get i = t.control.get i) :
    t'.countsTime i = t.countsTime i := by
  unfold Timers.countsTime
  rw [Timers.getElem_eq_get, Timers.getElem_eq_get, h]

theorem overflowTime_congr (hsame : Timers.SameAt i (s.timers.get p) (s'.timers.get p))
    (hnow : s'.queue.now = s.queue.now) : s'.overflowTime p i = s.overflowTime p i := by
  unfold overflowTime elapsed
  rw [hsame.control, hsame.counter, hsame.startedAt, hnow]

/-- The next overflow is as far ahead as all that waits. -/
theorem Ticks.ahead (h : Ticks p i s) (hcounts : (s.timers.get p).countsTime i = true) {k : ℕ}
    (hpunctual : Punctual k s) : (s.queue.now.toNat : ℤ) + k ≤ s.overflowTime p i := by
  obtain ⟨e, he, hkind, htime⟩ := h hcounts
  rw [← htime]
  exact hpunctual.ahead e he (by rw [hkind]; nofun)

/-- What leaves the timer's state and its overflow alone, the clock standing still. The reload value
does not matter before the next overflow. -/
theorem Ticks.frame (h : Ticks p i s)
    (hcontrol : (s'.timers.get p).control.get i = (s.timers.get p).control.get i)
    (hsame : (s.timers.get p).countsTime i = true →
      (s'.timers.get p).counters.get i = (s.timers.get p).counters.get i ∧
      (s'.timers.get p).startedAt.get i = (s.timers.get p).startedAt.get i)
    (hnow : s'.queue.now = s.queue.now)
    (hwaits : ∀ e ∈ s.queue.events, e.kind = overflowEvent p i → e ∈ s'.queue.events) :
    Ticks p i s' := by
  intro hcounts
  rw [countsTime_congr hcontrol] at hcounts
  obtain ⟨hcounter, hstarted⟩ := hsame hcounts
  obtain ⟨e, he, hkind, htime⟩ := h hcounts
  refine ⟨e, hwaits e he hkind, hkind, ?_⟩
  unfold overflowTime elapsed at htime ⊢
  rw [hcontrol, hcounter, hstarted, hnow]
  exact htime

/-- A timer that was just started waits for its overflow a period ahead. -/
theorem ticks_started (control : TimerControl) (counter : UInt16) {queue : EventQueue Event}
    (hcoherent : queue.Coherent) (hroom : queue.refuses (overflowEvent p i) = false)
    (hnow : queue.now.toNat < clockBound)
    (hcontrol : (s'.timers.get p).control.get i = control)
    (hcounter : (s'.timers.get p).counters.get i = counter)
    (hstarted : (s'.timers.get p).startedAt.get i = queue.now)
    (hqueue : s'.queue = queue.schedule (overflowEvent p i)
      (Timers.untilOverflow counter control).toUInt64.toInt64) :
    Ticks p i s' := by
  have hclock : clockBound = 2 ^ 62 + 2 ^ 32 := rfl
  intro _
  let delay := (Timers.untilOverflow counter control).toUInt64.toInt64
  have hbound := (control.period_bounds counter).2
  have hdelay : delay.toInt = control.period counter := Timers.toInt_untilOverflow counter control
  have hsame : s'.queue.now = queue.now := by rw [hqueue, EventQueue.now_schedule]
  refine ⟨⟨overflowEvent p i, queue.dueTime delay⟩, ?_, rfl, ?_⟩
  · rw [hqueue, EventQueue.mem_schedule hcoherent hroom]
    exact .inl rfl
  · show (queue.dueTime delay).toInt = _
    unfold overflowTime elapsed
    rw [EventQueue.toInt_dueTime _ (by omega) (by omega) (by omega), hdelay, hstarted, hsame,
      hcontrol, hcounter, UInt64.sub_self]
    show _ = _ - ((0 : ℕ) : ℤ) + _
    rw [Nat.cast_zero, sub_zero]

/-! ## Writes -/

/-- A write to the control register of a timer starts it anew, if it counts time from then on. -/
theorem ticks_writeControl (hsound : s.Sound) (hnow : s.queue.now.toNat < clockBound)
    (lanes : Lanes) (log : Log) : Ticks p i (s.writeTimerControl p i lanes log).1 := by
  intro hcounts
  let t := s.timers.get p
  let control : TimerControl := ⟨lanes.merge16 (t.control.get i).raw⟩
  let counter := t.counterAfter i control s.queue.now
  have htimers : (s.writeTimerControl p i lanes log).1.timers.get p =
      (t.writeControl i lanes s.queue.now).1 := by
    rw [queue_writeTimerControl]
    exact PerProcessor.get_set_self _ _ _
  have hwritten := t.writeControl_eq i lanes s.queue.now
  have hon : control.countsTime i = true := by
    rw [htimers] at hcounts
    unfold Timers.countsTime at hcounts
    rwa [Timers.getElem_eq_get, t.control_writeControl i lanes s.queue.now] at hcounts
  dsimp only at hwritten
  rw [if_pos hon, if_pos hon] at hwritten
  refine ticks_started control counter hsound.coherent (hsound.room _) hnow ?_ ?_ ?_ ?_ hcounts
  · rw [htimers, t.control_writeControl]
  · rw [htimers, hwritten]
    exact Timers.get_set_self _ _ _
  · rw [htimers, hwritten]
    exact Timers.get_set_self _ _ _
  · rw [queue_writeTimerControl]
    dsimp only
    rw [hwritten]

/-- A write to the control register of a timer leaves the others alone. -/
theorem sameAt_writeTimerControl (s : System) {q : Processor} {j : Fin 4}
    (hother : ¬ (i = j ∧ q = p)) (lanes : Lanes) (log : Log) :
    Timers.SameAt i (s.timers.get p) ((s.writeTimerControl q j lanes log).1.timers.get p) := by
  rw [queue_writeTimerControl]
  refine FreeRun.sameAt_set fun hq => ?_
  subst hq
  exact Timers.sameAt_writeControl _ (fun hi => hother ⟨hi, rfl⟩) lanes _

/-- A write to none of the two registers of a timer leaves it alone. -/
theorem sameAt_writeIo (s : System) (q : Processor) (lanes : Lanes) (log : Log) (r : IoRegister)
    (hother : ¬ (Happening.wrote q r s (s.writeIo q lanes log r).1).touches p i) :
    Timers.SameAt i (s.timers.get p) ((s.writeIo q lanes log r).1.timers.get p) := by
  rcases s.writeIo_cases q lanes log r with ⟨-, htimers⟩ | ⟨-, -, -, -, htimers⟩ |
    ⟨j, rfl, -, htimers⟩ | ⟨j, rfl, hsystem⟩
  · rw [htimers]
    exact .refl _ _
  · rw [htimers]
    exact .refl _ _
  · have hset : s.timers.modify q (·.writeReload j lanes) =
        s.timers.set q ((s.timers.get q).writeReload j lanes) := by cases q <;> rfl
    rw [htimers, hset]
    refine FreeRun.sameAt_set fun hq => ?_
    subst hq
    exact Timers.sameAt_writeReload _ (fun hi => hother ⟨rfl, .inl (by rw [hi])⟩) lanes
  · rw [hsystem]
    exact s.sameAt_writeTimerControl (fun h => hother ⟨h.2, .inr (by rw [h.1])⟩) lanes log

/-- Whatever is written to a device register, a timer that counts time ticks on. -/
theorem Ticks.writeIo (h : Ticks p i s) (hsound : s.Sound)
    (hnow : s.queue.now.toNat < clockBound) (q : Processor) (lanes : Lanes) (log : Log)
    (r : IoRegister) : Ticks p i (s.writeIo q lanes log r).1 := by
  have hclock := s.now_writeIo q lanes log r
  rcases s.writeIo_cases q lanes log r with ⟨hqueue, htimers⟩ |
    ⟨event, delay, hevent, hqueue, htimers⟩ | ⟨j, rfl, hqueue, htimers⟩ | ⟨j, rfl, hsystem⟩
  · refine h.frame (by rw [htimers]) (fun _ => by rw [htimers]; exact ⟨rfl, rfl⟩) hclock ?_
    rw [hqueue]
    exact fun e he _ => he
  · refine h.frame (by rw [htimers]) (fun _ => by rw [htimers]; exact ⟨rfl, rfl⟩) hclock ?_
    rw [hqueue]
    refine fun e he hkind => (hsound.mem_schedule_other (fun heq => ?_) delay hkind).mpr he
    rw [heq] at hevent
    rcases hevent with hevent | hevent <;> cases hevent
  · have hframe : ∀ x : PerProcessor Timers, (x.modify q (·.writeReload j lanes)).get p =
        if p = q then (x.get p).writeReload j lanes else x.get p := by
      intro x
      cases p <;> cases q <;> rfl
    refine h.frame ?_ (fun _ => ?_) hclock ?_
    · rw [htimers, hframe]
      split <;> rfl
    · rw [htimers, hframe]
      split <;> exact ⟨rfl, rfl⟩
    · rw [hqueue]
      exact fun e he _ => he
  · rw [hsystem] at hclock ⊢
    by_cases hself : q = p ∧ i = j
    · obtain ⟨rfl, rfl⟩ := hself
      exact ticks_writeControl hsound hnow lanes log
    · have hsame := s.sameAt_writeTimerControl (mt And.symm hself) lanes log
      refine h.frame hsame.control (fun _ => ⟨hsame.counter, hsame.startedAt⟩) hclock ?_
      rw [queue_writeTimerControl]
      dsimp only
      split
      · exact fun e he _ => he
      · refine fun e he hkind => (hsound.mem_schedule_other (fun heq => ?_) _ hkind).mpr he
        obtain ⟨hp, hi⟩ := overflowEvent_inj heq
        exact hself ⟨hp, hi.symm⟩

/-! ## Events -/

/-- A timer whose overflow is yet to come waits for it at the same time once the clock has moved
on. -/
theorem overflowTime_moved (htimers : s'.timers.get p = s.timers.get p)
    (hnow : s.queue.now.toNat ≤ s'.queue.now.toNat) (hrange : s'.queue.now.toNat < clockBound)
    (hahead : (s.queue.now.toNat : ℤ) ≤ s.overflowTime p i) :
    s'.overflowTime p i = s.overflowTime p i := by
  have hclock : clockBound = 2 ^ 62 + 2 ^ 32 := rfl
  have hbound := (((s.timers.get p).control.get i).period_bounds
    ((s.timers.get p).counters.get i)).2
  have hstart := ((s.timers.get p).startedAt.get i).toNat_lt
  unfold overflowTime elapsed at hahead ⊢
  -- The timer was started less than a period ago, so the difference of the clocks does not wrap.
  rw [htimers]
  rw [UInt64.toNat_sub] at hahead ⊢
  rw [UInt64.toNat_sub]
  omega

/-- No overflow writes a control register. -/
theorem control_dispatch (s : System) (event : Fired Event) (log : Log) (p : Processor) :
    ((s.dispatch event log).1.timers.get p).control = (s.timers.get p).control := by
  rcases s.dispatch_cases event log with ⟨-, htimers, -⟩ | ⟨q, j, -, hcounts, hsystem⟩
  · rw [htimers]
  · rw [hsystem, onTimerOverflow_of_countsTime _ _ _ _ _ hcounts]
    dsimp only
    obtain ⟨-, hcontrol, -⟩ :=
      Timers.overflowFrom_frame (3 - j.val) (by omega) (s.timers.get q) (s.interrupts.get q)
    cases p <;> cases q <;> first | rfl | exact hcontrol

/-- Handling another event leaves a timer that counts time alone, even if it is the overflow of
another timer. -/
theorem sameAt_dispatch_other (hcounts : (s.timers.get p).countsTime i = true)
    {event : Fired Event} (hevent : event.kind ≠ overflowEvent p i) (log : Log) :
    Timers.SameAt i (s.timers.get p) ((s.dispatch event log).1.timers.get p) := by
  rcases s.dispatch_cases event log with ⟨-, htimers, -⟩ | ⟨q, j, hkind, hon, hsystem⟩
  · rw [htimers]
    exact .refl _ _
  · rw [hsystem, onTimerOverflow_of_countsTime _ _ _ _ _ hon]
    refine FreeRun.sameAt_set fun hq => ?_
    subst hq
    have hi : i ≠ j := fun hi => hevent (by rw [hkind, hi])
    exact Timers.sameAt_onOverflow _ _ hi hcounts _ _

theorem Ticks.dispatch_other (h : Ticks p i s) (hsound : s.Sound) {event : Fired Event}
    (hevent : event.kind ≠ overflowEvent p i) (log : Log) :
    Ticks p i (s.dispatch event log).1 := by
  have hcontrol := s.control_dispatch event log p
  have hnow := s.now_dispatch event log
  refine h.frame (by rw [hcontrol]) (fun hcounts => ?_) hnow ?_
  · have hsame := sameAt_dispatch_other hcounts hevent log
    exact ⟨hsame.counter, hsame.startedAt⟩
  · rcases s.dispatch_cases event log with ⟨hqueue, -⟩ | ⟨q, j, hkind, hon, hsystem⟩
    · rw [hqueue]
      exact fun e he _ => he
    · rw [hsystem, onTimerOverflow_of_countsTime _ _ _ _ _ hon]
      have hne : overflowEvent q j ≠ overflowEvent p i := fun heq => hevent (hkind.trans heq)
      exact fun e he hkind => (hsound.mem_schedule_other hne _ hkind).mpr he

/-- A timer whose overflow is handled at its time starts anew. -/
theorem ticks_dispatch_self (hsound : s.Sound) (hnow : s.queue.now.toNat < clockBound)
    (log : Log) : Ticks p i (s.dispatch ⟨overflowEvent p i, 0⟩ log).1 := by
  intro hcounts
  have hon := hcounts
  rw [countsTime_congr (t := s.timers.get p) (by rw [control_dispatch])] at hon
  obtain ⟨-, hcontrol, hcounter, hstarted, hqueue⟩ := FreeRun.dispatch_overflow hon log
  exact ticks_started _ _ hsound.coherent (hsound.room _) hnow hcontrol hcounter hstarted hqueue
    hcounts

/-- The clock moves on, though not past the overflow. -/
theorem Ticks.moved (h : Ticks p i s) (htimers : s'.timers = s.timers)
    (hnow : s.queue.now.toNat ≤ s'.queue.now.toNat) (hrange : s'.queue.now.toNat < clockBound)
    (hahead : ∀ e ∈ s.queue.events, e.kind ≠ .pause → (s.queue.now.toNat : ℤ) ≤ e.time.toInt)
    (hwaits : ∀ e ∈ s.queue.events, e.kind = overflowEvent p i → e ∈ s'.queue.events) :
    Ticks p i s' := by
  intro hcounts
  rw [htimers] at hcounts
  obtain ⟨e, he, hkind, htime⟩ := h hcounts
  have hle := hahead e he (by rw [hkind]; nofun)
  rw [htime] at hle
  refine ⟨e, hwaits e he hkind, hkind, ?_⟩
  rw [htime, overflowTime_moved (by rw [htimers]) hnow hrange hle]

/-! ## Lowering the clocks -/

theorem timers_rebase (s : Session) (hlow : ¬ s.system.queue.now < EventQueue.rebaseAt)
    (p : Processor) : s.rebase.system.timers.get p =
      (s.system.timers.get p).rebase EventQueue.rebaseAt := by
  rw [Session.system_rebase_of_le hlow]
  exact FreeRun.get_map _ _ _

/-- Lowering the clocks changes the start of a timer only. -/
theorem frame_rebase (s : Session) (p : Processor) (i : Fin 4) :
    (s.rebase.system.timers.get p).reload.get i = (s.system.timers.get p).reload.get i ∧
    (s.rebase.system.timers.get p).control.get i = (s.system.timers.get p).control.get i ∧
    (s.rebase.system.timers.get p).counters.get i = (s.system.timers.get p).counters.get i := by
  by_cases hlow : s.system.queue.now < EventQueue.rebaseAt
  · rw [Session.rebase_of_lt hlow]
    exact ⟨rfl, rfl, rfl⟩
  · rw [timers_rebase s hlow]
    exact ⟨rfl, rfl, rfl⟩

/-- A timer is as long on its way as before, as its start is lowered like the clock. -/
theorem elapsed_rebase (s : Session) (p : Processor) (i : Fin 4) :
    s.rebase.system.elapsed p i = s.system.elapsed p i := by
  by_cases hlow : s.system.queue.now < EventQueue.rebaseAt
  · rw [Session.rebase_of_lt hlow]
  · have hnow : s.rebase.system.queue.now = s.system.queue.now - EventQueue.rebaseAt := by
      rw [Session.system_rebase_of_le hlow, EventQueue.rebase_of_le hlow]
      rfl
    have hstarted : ((s.system.timers.get p).rebase EventQueue.rebaseAt).startedAt.get i =
        (s.system.timers.get p).startedAt.get i - EventQueue.rebaseAt := by
      simp only [Timers.rebase, Vector.get_eq_getElem, Vector.getElem_map]
    unfold elapsed
    rw [timers_rebase s hlow, hstarted, hnow, FreeRun.sub_sub_sub]

/-- So its overflow comes earlier by as much. -/
theorem overflowTime_rebase (s : Session) (p : Processor) (i : Fin 4) :
    s.system.overflowTime p i =
      s.rebase.system.overflowTime p i + s.system.queue.rebase.1.toNat := by
  obtain ⟨-, hcontrol, hcounter⟩ := frame_rebase s p i
  have hclock := s.toNat_now_rebase
  unfold Session.now at hclock
  unfold overflowTime
  rw [hcontrol, hcounter, elapsed_rebase, hclock]
  ring

theorem Ticks.lower {s : Session} (h : Ticks p i s.system)
    (hpositive : ∀ e ∈ s.system.queue.events, 0 ≤ e.time.toInt) : Ticks p i s.rebase.system := by
  intro hcounts
  rw [countsTime_congr (frame_rebase s p i).2.1] at hcounts
  obtain ⟨e, he, hkind, htime⟩ := h hcounts
  refine (Session.mem_events_rebase hpositive (overflowEvent p i) _).mpr ⟨e, he, hkind, ?_⟩
  rw [htime, overflowTime_rebase]

/-! ## Every timer -/

/-- No timer is enabled when the console is switched on. -/
theorem ticks_initial (p : Processor) (i : Fin 4) (config : Config) : Ticks p i { config } := by
  have hoff : ∀ i, ({} : Timers).countsTime i = false := by decide
  have htimers : ({ config } : System).timers.get p = {} := by cases p <;> rfl
  intro hcounts
  rw [htimers, hoff] at hcounts
  cases hcounts

/-- **A timer that counts time waits for its overflow.** The event is due when the counter, going on
from its value at the start of the timer, comes to its end. -/
theorem ticks_chronicle (p : Processor) (i : Fin 4) : Chronicle fun s _ => Ticks p i s where
  congr h htimers _ _ hqueue :=
    h.frame (by rw [htimers]) (fun _ => by rw [htimers]; exact ⟨rfl, rfl⟩) (by rw [hqueue])
      (by rw [hqueue]; exact fun e he _ => he)
  wrote hpunctual hnow h q lanes log r := h.writeIo hpunctual.sound hnow q lanes log r
  paused hsound h delay := by
    have hne : Event.pause ≠ overflowEvent p i := nofun
    exact h.frame rfl (fun _ => ⟨rfl, rfl⟩) (EventQueue.now_schedule _ _ _)
      fun e he hkind => (hsound.mem_schedule_other hne delay hkind).mpr he
  fired {s t target event queue} hpunctual hrange hnow hpop h log := by
    have hsound := hpunctual.sound
    obtain ⟨hpopped, hle, htime, -⟩ := hpunctual.popDue hrange hnow hpop
    obtain ⟨hforward, -⟩ := EventQueue.toNat_now_popDue hsound.coherent hpop
    by_cases hevent : event.kind = overflowEvent p i
    · obtain ⟨kind, lateBy⟩ := event
      obtain rfl : kind = overflowEvent p i := hevent
      obtain rfl : lateBy = 0 := htime nofun
      exact ticks_dispatch_self hpopped.sound (by show queue.now.toNat < _; omega) log
    · have hmoved : Ticks p i { s with queue } := by
        refine h.moved rfl hforward (by show queue.now.toNat < _; omega) ?_ ?_
        · exact fun e he hkind => by simpa using hpunctual.ahead e he hkind
        · exact fun e he hkind =>
            (hsound.mem_popDue hpop).mpr ⟨he, fun heq => hevent (heq.symm.trans hkind)⟩
      exact hmoved.dispatch_other hpopped.sound hevent log
  passed {s t target} hpunctual hrange hnow _ h := by
    have hmax := EventQueue.toNat_max s.queue.now target
    refine h.moved rfl ?_ ?_ ?_ fun e he _ => he
    · show s.queue.now.toNat ≤ (max s.queue.now target).toNat
      omega
    · show (max s.queue.now target).toNat < clockBound
      omega
    · exact fun e he hkind => by simpa using hpunctual.ahead e he hkind
  lowered _ hpositive h := h.lower hpositive

end System
end Handheld.Console
