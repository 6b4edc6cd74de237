import Handheld.Proofs.Console.FreeRun
import Handheld.Proofs.Console.Runs

/-!
# Events fire in time, and firing them ends

Everything that the console schedules by itself lies ahead of its clock, and a timer that is fired
at its time is scheduled anew at least two cycles later. So only the end of a run, which the
program around the session may put anywhere, can ever be late; and firing the events that are due
comes to an end, within `eventBound` events.

* `System.Punctual` is the invariant, `System.Follows` what a device may do to the queue;
* `System.Pausing` says when a run ends;
* `Session.settle_returns` says that firing events comes to an end, and `pausing_settle` that it
  ends a run whose end is due.
-/

namespace Handheld.Console

open EventQueue (dueTime)

/-! ## Delays -/

namespace Timers

/-- A write to a control register schedules an overflow a period ahead. -/
theorem delay_writeControl {t : Timers} {i : Fin 4} {lanes : Lanes} {now : UInt64} {delay : Int64}
    (h : (t.writeControl i lanes now).2 = some delay) : 2 ≤ delay.toInt ∧ delay.toInt ≤ 2 ^ 27 := by
  have hperiod : ∃ counter control, delay = (untilOverflow counter control).toUInt64.toInt64 := by
    unfold writeControl at h
    dsimp only at h
    split at h
    · exact ⟨_, _, (Option.some.inj h).symm⟩
    · cases h
  obtain ⟨counter, control, rfl⟩ := hperiod
  have hbounds := control.period_bounds counter
  rw [toInt_untilOverflow]
  omega

/-- An overflow at its time is followed by the next one a period later. -/
theorem delay_onOverflow (t : Timers) (c : InterruptController) (i : Fin 4) (now : UInt64) :
    2 ≤ (t.onOverflow c i now 0).2.2.toInt ∧ (t.onOverflow c i now 0).2.2.toInt ≤ 2 ^ 27 := by
  obtain ⟨-, -, -, -, hdelay⟩ := t.onOverflow_self c i now 0
  have hbounds := (t.control.get i).period_bounds (t.reload.get i)
  rw [hdelay, Int64.sub_zero, toInt_untilOverflow]
  omega

end Timers

theorem Divider.latency_bounds (d : Divider) : 2 ≤ d.latency.toInt ∧ d.latency.toInt ≤ 2 ^ 27 := by
  unfold Divider.latency
  split <;> decide

namespace System

/-! ## What devices schedule -/

/-- What a device may do to the queue: nothing, or schedule an event ahead, which is not the end
of a run. -/
def Follows (q q' : EventQueue Event) : Prop :=
  q' = q ∨
  ∃ event ∈ Event.known, event ≠ .pause ∧ ∃ delay : Int64,
    2 ≤ delay.toInt ∧ delay.toInt ≤ 2 ^ 27 ∧ q' = q.schedule event delay

theorem writeIo_follows (s : System) (p : Processor) (lanes : Lanes) (log : Log)
    (r : IoRegister) : Follows s.queue (s.writeIo p lanes log r).1.queue := by
  cases r with
  | divisionControl | numerator | denominator =>
    have hlatency := Divider.latency_bounds
    exact .inr ⟨.divisionDone, Event.divisionDone_known, nofun, _, (hlatency _).1, (hlatency _).2,
      rfl⟩
  | squareRootControl | squareRootInput =>
    exact .inr ⟨.squareRootDone, Event.squareRootDone_known, nofun, SquareRoot.latency, by decide,
      by decide, rfl⟩
  | timerControl i =>
    have hqueue : (s.writeIo p lanes log (.timerControl i)).1.queue = _ :=
      congrArg System.queue (s.queue_writeTimerControl p i lanes log)
    rw [hqueue]
    cases hdelay : ((s.timers.get p).writeControl i lanes s.queue.now).2 with
    | none => exact .inl rfl
    | some delay =>
      obtain ⟨hlow, hhigh⟩ := Timers.delay_writeControl hdelay
      exact .inr ⟨overflowEvent p i, Event.overflow_known p i, nofun, delay, hlow, hhigh, rfl⟩
  | ipcSync =>
    left
    show (s.writeIpc p lanes).queue = _
    unfold writeIpc
    dsimp only
    split <;> rfl
  | _ => exact .inl rfl

/-- Handling an event at its time schedules at most the next overflow of its timer. The end of a
run may also be late. -/
theorem dispatch_follows (s : System) {event : Fired Event}
    (htime : event.kind ≠ .pause → event.lateBy = 0) (log : Log) :
    Follows s.queue (s.dispatch event log).1.queue := by
  rcases s.dispatch_cases event log with ⟨hqueue, -⟩ | ⟨p, i, hkind, hcounts, hsystem⟩
  · exact .inl hqueue
  · have hlate : event.lateBy = 0 := htime (by rw [hkind]; nofun)
    rw [hsystem, onTimerOverflow_of_countsTime _ _ _ _ _ hcounts, hlate]
    obtain ⟨hlow, hhigh⟩ :=
      (s.timers.get p).delay_onOverflow (s.interrupts.get p) i s.queue.now
    exact .inr ⟨overflowEvent p i, Event.overflow_known p i, nofun, _, hlow, hhigh, rfl⟩

/-- No write to a device register ends a run. -/
theorem running_writeIo (s : System) (p : Processor) (lanes : Lanes) (log : Log)
    (r : IoRegister) : (s.writeIo p lanes log r).1.running = s.running := by
  cases r with
  | timerControl i =>
    have hsystem : (s.writeIo p lanes log (.timerControl i)).1.running = _ :=
      congrArg System.running (s.queue_writeTimerControl p i lanes log)
    exact hsystem
  | ipcSync =>
    show (s.writeIpc p lanes).running = _
    unfold writeIpc
    dsimp only
    split <;> rfl
  | _ => rfl

/-- Only the event that is there for it ends a run. -/
theorem running_dispatch (s : System) (event : Fired Event) (log : Log) :
    (s.dispatch event log).1.running = if event.kind = .pause then false else s.running := by
  obtain ⟨kind, lateBy⟩ := event
  cases kind with
  | timerOverflow timer isArm9 =>
    have hoverflow : ∀ p i log', (s.onTimerOverflow p i lateBy log').1.running = s.running := by
      intro p i log'
      by_cases hcounts : (s.timers.get p).countsTime i = true
      · rw [onTimerOverflow_of_countsTime _ _ _ _ _ hcounts]
      · rw [onTimerOverflow_of_not_countsTime _ _ _ _ _ (Bool.eq_false_of_not_eq_true hcounts)]
    rw [if_neg nofun]
    unfold dispatch
    dsimp only
    split
    · exact hoverflow _ _ _
    · rfl
  | _ => rfl

/-! ## Punctual systems -/

/-- Nothing that waits, the end of a run apart, is due in less than `k` cycles. -/
structure Punctual (k : ℕ) (s : System) : Prop where
  sound : s.Sound
  ahead : ∀ e ∈ s.queue.events, e.kind ≠ .pause → (s.queue.now.toNat : ℤ) + k ≤ e.time.toInt

variable {k : ℕ} {s : System}

theorem Punctual.congr {t : System} (h : Punctual k s) (hqueue : t.queue = s.queue) :
    Punctual k t := by
  refine ⟨h.sound.congr hqueue, ?_⟩
  rw [hqueue]
  exact h.ahead

theorem Punctual.mono {j : ℕ} (h : Punctual k s) (hjk : j ≤ k) : Punctual j s := by
  refine ⟨h.sound, fun e he hkind => ?_⟩
  have hahead := h.ahead e he hkind
  omega

/-- Scheduling an event at least `k` cycles ahead, or the end of a run, keeps a system punctual. -/
theorem Punctual.schedule (h : Punctual k s) (hnow : s.queue.now.toNat < clockBound)
    {event : Event} (hevent : event ∈ Event.known) {delay : Int64}
    (hdelay : event ≠ .pause → (k : ℤ) ≤ delay.toInt ∧ delay.toInt ≤ 2 ^ 27) :
    Punctual k { s with queue := s.queue.schedule event delay } := by
  have hclock : clockBound = 2 ^ 62 + 2 ^ 32 := rfl
  refine ⟨h.sound.schedule hevent delay, fun e he hkind => ?_⟩
  show ((s.queue.schedule event delay).now.toNat : ℤ) + k ≤ _
  rw [EventQueue.now_schedule]
  rcases (EventQueue.mem_schedule h.sound.coherent (h.sound.room event) delay e).mp he with
    rfl | ⟨he, -⟩
  · obtain ⟨hlow, hhigh⟩ := hdelay hkind
    show (s.queue.now.toNat : ℤ) + k ≤ (s.queue.dueTime delay).toInt
    rw [EventQueue.toInt_dueTime _ (by omega) (by omega) (by omega)]
    omega
  · exact h.ahead e he hkind

/-- What devices do to the queue keeps a system punctual. -/
theorem Punctual.follow {t : System} (h : Punctual k s) (hk : k ≤ 2)
    (hnow : s.queue.now.toNat < clockBound) (hqueue : Follows s.queue t.queue) :
    Punctual k t := by
  rcases hqueue with hqueue | ⟨event, hknown, -, delay, hlow, hhigh, hqueue⟩
  · exact h.congr hqueue
  · exact (h.schedule hnow hknown fun _ => ⟨by omega, hhigh⟩).congr hqueue

/-- Everything that a processor does keeps a system punctual, and the clock where it is. -/
theorem punctual_monitor (hk : k ≤ 2) {now : UInt64} (hnow : now.toNat < clockBound) :
    Monitor fun s _ => Punctual k s ∧ s.queue.now = now where
  memory _ h := ⟨h.1.congr rfl, h.2⟩
  control _ h := ⟨h.1.congr rfl, h.2⟩
  interrupts _ h := ⟨h.1.congr rfl, h.2⟩
  wrote p lanes log r h := by
    obtain ⟨hpunctual, rfl⟩ := h
    exact ⟨hpunctual.follow hk hnow (writeIo_follows _ p lanes log r), now_writeIo _ _ _ _ _⟩

/-! ## Firing events -/

/-- How often an event and those that follow it can fire up to a time, two cycles apart. -/
def firings (target : ℕ) (e : Pending Event) : ℕ := (target + 2 - e.time.toInt).toNat / 2

/-- The same of all events that wait. -/
def firingsOf (target : ℕ) (events : List (Pending Event)) : ℕ :=
  (events.map (firings target)).sum

theorem firingsOf_cons (target : ℕ) (e : Pending Event) (events : List (Pending Event)) :
    firingsOf target (e :: events) = firings target e + firingsOf target events := by
  rw [firingsOf, List.map_cons, List.sum_cons]
  rfl

theorem firingsOf_le_eventBound (q : EventQueue Event) (target : UInt64) :
    firingsOf target.toNat q.events ≤ Session.eventBound q target := by
  unfold Session.eventBound
  induction q.events with
  | nil => exact le_rfl
  | cons e events ih =>
    rw [firingsOf_cons, List.foldr_cons]
    unfold firings
    omega

/-- An event that is scheduled at least two cycles ahead can fire once less than one that would
fire now. -/
theorem firingsOf_schedule (h : s.Sound) (hnow : s.queue.now.toNat < clockBound) (event : Event)
    {delay : Int64} (hlow : 2 ≤ delay.toInt) (hhigh : delay.toInt ≤ 2 ^ 27) (target : ℕ) :
    firingsOf target (s.queue.schedule event delay).events ≤
      (target - s.queue.now.toNat) / 2 + firingsOf target s.queue.events := by
  have hclock : clockBound = 2 ^ 62 + 2 ^ 32 := rfl
  have hperm := EventQueue.insert_perm ⟨event, s.queue.dueTime delay⟩
    (s.queue.events.filter (·.kind ≠ event))
  have hsum : firingsOf target (s.queue.schedule event delay).events =
      firings target ⟨event, s.queue.dueTime delay⟩ +
        firingsOf target (s.queue.events.filter (·.kind ≠ event)) := by
    rw [EventQueue.schedule_events h.coherent (h.room event), ← firingsOf_cons]
    exact (hperm.map _).sum_eq
  have hnew : firings target ⟨event, s.queue.dueTime delay⟩ ≤
      (target - s.queue.now.toNat) / 2 := by
    unfold firings
    dsimp only
    rw [EventQueue.toInt_dueTime _ (by omega) (by omega) (by omega)]
    omega
  have hold : firingsOf target (s.queue.events.filter (·.kind ≠ event)) ≤
      firingsOf target s.queue.events :=
    (List.filter_sublist.map _).sum_le_sum fun _ _ => Nat.zero_le _
  omega

variable {target : UInt64} {event : Fired Event} {queue : EventQueue Event}

/-- An event that is taken from a punctual system, unless it is the end of a run, is taken at its
time. -/
theorem Punctual.popDue (h : Punctual 0 s) (hrange : target.toNat < clockBound)
    (hnow : s.queue.now.toNat ≤ target.toNat)
    (hpop : s.queue.popDue target = some (event, queue)) :
    Punctual 0 { s with queue } ∧ queue.now.toNat ≤ target.toNat ∧
      (event.kind ≠ .pause → event.lateBy = 0) ∧
      (target.toNat - queue.now.toNat) / 2 + firingsOf target.toNat queue.events <
        firingsOf target.toNat s.queue.events := by
  have hclock : clockBound = 2 ^ 62 + 2 ^ 32 := rfl
  obtain ⟨-, hle⟩ := EventQueue.toNat_now_popDue h.sound.coherent hpop
  obtain ⟨e, rest, hevents, hdue, rfl, hqueue⟩ :=
    (EventQueue.popDue_eq_some_iff h.sound.coherent target event queue).mp hpop
  have hsorted := h.sound.coherent.sorted
  rw [Int64.le_iff_toInt_le, toInt_toInt64 (by omega)] at hdue
  rw [hevents] at hsorted
  have hclamp := EventQueue.toNat_clampTime e.time
  have hmoved : queue.now.toNat = max s.queue.now.toNat (EventQueue.clampTime e.time).toNat := by
    rw [hqueue]
    exact EventQueue.toNat_max _ _
  have hrest : queue.events = rest := by rw [hqueue]; rfl
  refine ⟨⟨h.sound.popDue hpop, fun e' he' hkind => ?_⟩, by omega, fun hkind => ?_, ?_⟩
  · -- The rest is not earlier than the event, and not earlier than the old clock.
    change e' ∈ queue.events at he'
    rw [hrest] at he'
    have hlater := (List.pairwise_cons.mp hsorted).1 e' he'
    have hahead := h.ahead e' (by rw [hevents]; exact List.mem_cons_of_mem e he') hkind
    rw [Int64.le_iff_toInt_le] at hlater
    show (queue.now.toNat : ℤ) + 0 ≤ _
    omega
  · have hahead := h.ahead e (by rw [hevents]; exact List.mem_cons_self) hkind
    have heq : (max s.queue.now (EventQueue.clampTime e.time)).toInt64 = e.time := by
      rw [← Int64.toInt_inj, toInt_toInt64 (by rw [EventQueue.toNat_max]; omega),
        EventQueue.toNat_max]
      omega
    show (max s.queue.now (EventQueue.clampTime e.time)).toInt64 - e.time = 0
    rw [heq, Int64.sub_self]
  · rw [hrest, hevents, firingsOf_cons]
    unfold firings
    omega

/-- Firing an event that is due keeps a system punctual and leaves fewer to fire. -/
theorem Punctual.fire (h : Punctual 0 s) (hrange : target.toNat < clockBound)
    (hnow : s.queue.now.toNat ≤ target.toNat)
    (hpop : s.queue.popDue target = some (event, queue)) (log : Log) :
    let s' := (({ s with queue } : System).dispatch event log).1
    Punctual 0 s' ∧ s'.queue.now.toNat ≤ target.toNat ∧ Follows queue s'.queue ∧
      firingsOf target.toNat s'.queue.events < firingsOf target.toNat s.queue.events := by
  intro s'
  obtain ⟨hpopped, hle, htime, hfewer⟩ := h.popDue hrange hnow hpop
  have hrange' : queue.now.toNat < clockBound := by omega
  have hfollows : Follows queue s'.queue := dispatch_follows { s with queue } htime log
  have hclock : s'.queue.now = queue.now := now_dispatch { s with queue } event log
  refine ⟨hpopped.follow (by omega) hrange' hfollows, by rw [hclock]; exact hle, hfollows, ?_⟩
  -- An event that follows is two cycles later, which leaves it one firing less.
  rcases hfollows with hqueue | ⟨next, hknown, -, delay, hlow, hhigh, hqueue⟩
  · rw [hqueue]
    omega
  · have hnext := firingsOf_schedule hpopped.sound hrange' next hlow hhigh target.toNat
    change firingsOf target.toNat (queue.schedule next delay).events ≤
      (target.toNat - queue.now.toNat) / 2 + firingsOf target.toNat queue.events at hnext
    rw [hqueue]
    omega

/-! ## The end of a run -/

/-- The system runs, and the end of its run waits for its time. -/
def Pausing (stop : ℤ) (s : System) : Prop :=
  s.running = true ∧ ∃ e ∈ s.queue.events, e.kind = .pause ∧ e.time.toInt = stop

variable {stop : ℤ}

/-- No device takes the end of a run away. -/
theorem Follows.pending {q q' : EventQueue Event} (h : Follows q q') (hsound : s.Sound)
    (hq : s.queue = q) {e : Pending Event} (he : e ∈ q.events) (hkind : e.kind = .pause) :
    e ∈ q'.events := by
  subst hq
  rcases h with rfl | ⟨event, -, hevent, delay, -, -, rfl⟩
  · exact he
  · rw [EventQueue.mem_schedule hsound.coherent (hsound.room event)]
    exact .inr ⟨he, fun h => hevent (h.symm.trans hkind)⟩

/-- Nothing that a processor does takes the end of a run away. -/
theorem pausing_monitor : Monitor fun s _ => s.Sound ∧ s.Pausing stop where
  memory _ h := ⟨h.1.congr rfl, h.2⟩
  control _ h := ⟨h.1.congr rfl, h.2⟩
  interrupts _ h := ⟨h.1.congr rfl, h.2⟩
  wrote {s _} p lanes log r h := by
    obtain ⟨hsound, hrunning, e, he, hkind, htime⟩ := h
    refine ⟨hsound.writeIo p lanes log r, ?_, e, ?_, hkind, htime⟩
    · rw [running_writeIo]
      exact hrunning
    · exact (writeIo_follows s p lanes log r).pending hsound rfl he hkind

/-- The end of the run is the only one that waits. -/
theorem Pausing.time_eq (h : s.Pausing stop) (hsound : s.Sound) {e : Pending Event}
    (he : e ∈ s.queue.events) (hkind : e.kind = .pause) : e.time.toInt = stop := by
  obtain ⟨-, e', he', hkind', htime⟩ := h
  have hsame : e = e' :=
    List.inj_on_of_nodup_map hsound.coherent.distinct he he' (hkind.trans hkind'.symm)
  rw [hsame, htime]

/-- Firing the event that is there for it ends the run, and firing another one does not. -/
theorem Pausing.fire (h : s.Pausing stop) (hpunctual : Punctual 0 s)
    (hrange : target.toNat < clockBound) (hnow : s.queue.now.toNat ≤ target.toNat)
    (hpop : s.queue.popDue target = some (event, queue)) (log : Log) :
    let s' := (({ s with queue } : System).dispatch event log).1
    s'.Pausing stop ∨ s'.running = false ∧ stop ≤ target.toNat := by
  intro s'
  have hclock : clockBound = 2 ^ 62 + 2 ^ 32 := rfl
  have hrunning : s'.running = _ := running_dispatch { s with queue } event log
  have hfollows := (hpunctual.fire hrange hnow hpop log).2.2.1
  have hsound := hpunctual.sound.popDue hpop
  obtain ⟨e, rest, hevents, hdue, rfl, hqueue⟩ :=
    (EventQueue.popDue_eq_some_iff hpunctual.sound.coherent target event queue).mp hpop
  rw [Int64.le_iff_toInt_le, toInt_toInt64 (by omega)] at hdue
  by_cases hpause : e.kind = .pause
  · rw [if_pos hpause] at hrunning
    have htime := h.time_eq hpunctual.sound (by rw [hevents]; exact List.mem_cons_self) hpause
    exact .inr ⟨hrunning, by omega⟩
  · rw [if_neg hpause] at hrunning
    obtain ⟨hruns, e', he', hkind', htime'⟩ := h
    refine .inl ⟨hrunning.trans hruns, e', ?_, hkind', htime'⟩
    refine hfollows.pending hsound rfl ?_ hkind'
    rw [hevents] at he'
    rw [hqueue]
    rcases List.mem_cons.mp he' with rfl | hmem
    · exact absurd hkind' hpause
    · exact hmem

end System

namespace Session

open Handheld.Console.System (Punctual Pausing firingsOf)

variable {fuel : ℕ} {target : UInt64} {s s' : System} {log log' : Log}

theorem settleWithin_of_none (fuel : ℕ) (hpop : s.queue.popDue target = none) (log : Log) :
    settleWithin fuel target s log =
      some ({ s with queue := { s.queue with now := max s.queue.now target } }, log) := by
  unfold settleWithin
  rw [hpop]

theorem settleWithin_of_some (fuel : ℕ) {event : Fired Event} {queue : EventQueue Event}
    (hpop : s.queue.popDue target = some (event, queue)) (log : Log) :
    settleWithin (fuel + 1) target s log =
      settleWithin fuel target (({ s with queue } : System).dispatch event log).1
        (({ s with queue } : System).dispatch event log).2 := by
  rw [settleWithin, hpop]

/-- **Firing the events that are due comes to an end.** -/
theorem settle_returns (h : Punctual 0 s) (hrange : target.toNat < clockBound)
    (hnow : s.queue.now.toNat ≤ target.toNat) (log : Log) :
    ∃ s' log', settle? target s log = some (s', log') := by
  -- By induction on the fuel, which is never less than the firings that are left.
  have hreturns : ∀ fuel (s : System) (log : Log), Punctual 0 s →
      s.queue.now.toNat ≤ target.toNat → firingsOf target.toNat s.queue.events ≤ fuel →
      ∃ s' log', settleWithin fuel target s log = some (s', log') := by
    intro fuel
    induction fuel with
    | zero =>
      intro s log h hnow hfuel
      cases hpop : s.queue.popDue target with
      | none => exact ⟨_, _, settleWithin_of_none 0 hpop log⟩
      | some next =>
        have hfewer := (h.fire hrange hnow hpop log).2.2.2
        omega
    | succ fuel ih =>
      intro s log h hnow hfuel
      cases hpop : s.queue.popDue target with
      | none => exact ⟨_, _, settleWithin_of_none (fuel + 1) hpop log⟩
      | some next =>
        obtain ⟨hpunctual, hle, -, hfewer⟩ := h.fire hrange hnow hpop log
        rw [settleWithin_of_some fuel hpop]
        exact ih _ _ hpunctual hle (by omega)
  exact hreturns _ s log h hnow (System.firingsOf_le_eventBound s.queue target)

/-- Firing the events that are due takes the clock to the target, and not beyond. -/
theorem now_settle (h : s.Sound) (hnow : s.queue.now.toNat ≤ target.toNat)
    (returned : settleWithin fuel target s log = some (s', log')) : s'.queue.now = target := by
  induction fuel using Nat.strong_induction_on generalizing s log with
  | _ fuel ih =>
    rcases settle_inversion returned with ⟨-, rfl, -⟩ | ⟨left, event, queue, rfl, hpop, hrest, -⟩
    · show max s.queue.now target = target
      rw [← UInt64.toNat_inj, EventQueue.toNat_max]
      exact max_eq_right hnow
    · obtain ⟨-, hle⟩ := EventQueue.toNat_now_popDue h.coherent hpop
      refine ih left (Nat.lt_succ_self left) ((h.popDue hpop).dispatch event log) ?_ hrest
      rw [System.now_dispatch]
      exact hle.trans (max_le hnow le_rfl)

theorem running_settle (hstopped : s.running = false)
    (returned : settleWithin fuel target s log = some (s', log')) : s'.running = false := by
  induction fuel using Nat.strong_induction_on generalizing s log with
  | _ fuel ih =>
    rcases settle_inversion returned with ⟨-, rfl, -⟩ | ⟨left, event, queue, rfl, -, hrest, -⟩
    · exact hstopped
    · refine ih left (Nat.lt_succ_self left) ?_ hrest
      rw [System.running_dispatch]
      split
      · rfl
      · exact hstopped

/-- Firing the events that are due ends the run if its end is due, and only then. -/
theorem pausing_settle {stop : ℤ} (h : Punctual 0 s) (hpausing : s.Pausing stop)
    (hrange : target.toNat < clockBound) (hnow : s.queue.now.toNat ≤ target.toNat)
    (returned : settleWithin fuel target s log = some (s', log')) :
    s'.Pausing stop ∧ (target.toNat : ℤ) < stop ∨ s'.running = false ∧ stop ≤ target.toNat := by
  have hclock : clockBound = 2 ^ 62 + 2 ^ 32 := rfl
  induction fuel using Nat.strong_induction_on generalizing s log with
  | _ fuel ih =>
    rcases settle_inversion returned with ⟨hpop, rfl, -⟩ | ⟨left, event, queue, rfl, hpop, hrest, -⟩
    · obtain ⟨-, e, he, -, htime⟩ := id hpausing
      have hlater := (EventQueue.popDue_eq_none_iff h.sound.coherent target).mp hpop e he
      rw [Int64.lt_iff_toInt_lt, toInt_toInt64 (by omega), htime] at hlater
      exact .inl ⟨hpausing, hlater⟩
    · obtain ⟨hpunctual, hle, -⟩ := h.fire hrange hnow hpop log
      rcases hpausing.fire h hrange hnow hpop log with hstill | ⟨hstopped, hstop⟩
      · exact ih left (Nat.lt_succ_self left) hpunctual hstill hle hrest
      · exact .inr ⟨running_settle hstopped hrest, hstop⟩

end Session
end Handheld.Console
