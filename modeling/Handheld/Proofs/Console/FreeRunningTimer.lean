import Mathlib
import Handheld.Proofs.Console.FreeRun
import Handheld.Proofs.Console.Runs

/-!
# Free-running timers are exact

Whatever else happens to a session, a timer that was switched on and is left alone counts exactly
the cycles since its start. `StartsIn` finds a start in the record of a run; `Exact` says that every
timer started in the record is ahead of its next overflow, and is what every step keeps. The
counter, the overflows and the event that waits then follow by division (`Ahead.reading`).
-/

namespace Handheld.Console

open Happening

namespace FreeRun

variable {f : FreeRun} {s s' : System} {t u post : List Happening}

/-! ## Starts in a record -/

/-- In the record `t` a write to its control register switches the timer on, so that it counts
time, and the rest `post` of the record has no write to its registers. -/
structure StartsIn (f : FreeRun) (t post : List Happening) : Prop where
  started : ∃ pre before after,
    t = pre ++ .wrote f.cpu (.timerControl f.timer) before after :: post ∧
    ((before.timers.get f.cpu).control.get f.timer).isEnabled = false ∧
    (after.timers.get f.cpu).countsTime f.timer = true ∧
    f.control = (after.timers.get f.cpu).control.get f.timer ∧
    f.reload = (after.timers.get f.cpu).reload.get f.timer ∧
    f.start = before.queue.now.toNat
  untouched : ∀ h ∈ post, ¬ h.touches f.cpu f.timer

/-- A start in a record that was continued comes before the continuation or lies in it. -/
theorem StartsIn.append_cases (h : f.StartsIn (t ++ u) post) :
    (∃ post', f.StartsIn t post' ∧ post = post' ++ u) ∨ f.StartsIn u post := by
  obtain ⟨pre, before, after, htrace, hstart⟩ := h.started
  rcases List.append_eq_append_iff.mp htrace with ⟨as, -, hu⟩ | ⟨bs, ht, hpost⟩
  · exact .inr ⟨⟨as, before, after, hu, hstart⟩, h.untouched⟩
  · cases bs with
    | nil => exact .inr ⟨⟨[], before, after, hpost.symm, hstart⟩, h.untouched⟩
    | cons entry post' =>
      obtain ⟨rfl, rfl⟩ := List.cons.inj hpost
      refine .inl ⟨post', ⟨⟨pre, before, after, ht, hstart⟩, fun h' hh' => ?_⟩, rfl⟩
      exact h.untouched h' (List.mem_append_left u hh')

/-- A record without writes has no start in it. -/
theorem not_startsIn (hnone : ∀ p r before after, .wrote p r before after ∉ u) :
    ¬ f.StartsIn u post := by
  intro h
  obtain ⟨pre, before, after, rfl, -⟩ := h.started
  exact hnone _ _ _ _ (List.mem_append_right pre List.mem_cons_self)

theorem not_startsIn_nil : ¬ f.StartsIn [] post := not_startsIn fun _ _ _ _ => List.not_mem_nil

/-! ## What leaves a free run ahead -/

/-- What leaves the timer's registers, its event and the clock alone does not disturb a free run. -/
theorem Ahead.frame (h : f.Ahead s t)
    (hsame : Timers.SameAt f.timer (s.timers.get f.cpu) (s'.timers.get f.cpu))
    (hnow : s'.queue.now = s.queue.now)
    (hwaits : ∀ e ∈ s.queue.events, e.kind = f.event → e ∈ s'.queue.events) : f.Ahead s' t := by
  obtain ⟨count, hholds, hlt⟩ := h
  refine ⟨count, hholds.frame_still (Int.le_of_lt hlt) hsame hnow hwaits, ?_⟩
  rw [hnow]
  exact hlt

/-- Only the timers and the queue matter. -/
theorem Ahead.congr (h : f.Ahead s t) (htimers : s'.timers = s.timers)
    (hqueue : s'.queue = s.queue) : f.Ahead s' t := by
  refine h.frame ?_ (by rw [hqueue]) ?_
  · rw [htimers]
    exact .refl _ _
  · rw [hqueue]
    exact fun e he _ => he

/-- A write to another register leaves a free run ahead. -/
theorem Ahead.writeIo (h : f.Ahead s t) (hsound : s.Sound) (p : Processor) (lanes : Lanes)
    (log : Log) (r : IoRegister)
    (hother : ¬ (Happening.wrote p r s (s.writeIo p lanes log r).1).touches f.cpu f.timer) :
    f.Ahead (s.writeIo p lanes log r).1
      (t ++ [.wrote p r s (s.writeIo p lanes log r).1]) := by
  obtain ⟨count, hholds, hlt⟩ := h
  have hlowered : loweredBy (t ++ [.wrote p r s (s.writeIo p lanes log r).1]) = loweredBy t := by
    rw [loweredBy_append]
    rfl
  refine ⟨count, ?_, ?_⟩
  · exact (hholds.writeIo hsound (Int.le_of_lt hlt) p lanes log r hother).append rfl rfl
  · rw [System.now_writeIo, hlowered]
    exact hlt

/-- A timer that was just started is ahead of its first overflow. -/
theorem ahead_start (hsound : s.Sound) (hrange : s.queue.now.toNat < 2 ^ 62) {p : Processor}
    {lanes : Lanes} {log : Log} {r : IoRegister}
    (h : f.StartsIn [.wrote p r s (s.writeIo p lanes log r).1] post) :
    f.Ahead (s.writeIo p lanes log r).1 post := by
  obtain ⟨pre, before, after, htrace, hoff, hon, hcontrol, hreload, hstart⟩ := h.started
  cases pre with
  | cons entry pre =>
    obtain ⟨-, htail⟩ := List.cons.inj htrace
    cases pre <;> cases htail
  | nil =>
    obtain ⟨hwrote, rfl⟩ := List.cons.inj htrace
    obtain ⟨rfl, rfl, rfl, rfl⟩ := Happening.wrote.inj hwrote
    let s' := (s.writeIo f.cpu lanes log (.timerControl f.timer)).1
    have hf : f = ⟨f.cpu, f.timer, (s'.timers.get f.cpu).control.get f.timer,
        (s'.timers.get f.cpu).reload.get f.timer, s.queue.now.toNat⟩ := by
      rw [← hcontrol, ← hreload, ← hstart]
    have hholds := holds_start hsound hrange lanes log rfl hoff hon
    dsimp only at hholds
    rw [← hf] at hholds
    refine ⟨0, hholds, ?_⟩
    have hbound := f.period_bounds.1
    rw [System.now_writeIo, due, hstart]
    show _ < (_ : ℤ) + _ - (0 : ℕ)
    push_cast
    omega

end FreeRun

/-! ## Every started timer is exact -/

/-- The system is sound, its clock in range, and every timer that was started in the record and
left alone since is ahead of its next overflow. -/
structure Exact (s : System) (t : List Happening) : Prop where
  sound : s.Sound
  range : s.queue.now.toNat < 2 ^ 62
  ahead : ∀ (f : FreeRun) (post : List Happening), f.StartsIn t post → f.Ahead s post

namespace Exact

variable {s s' : System} {t u : List Happening}

theorem congr (h : Exact s t) (htimers : s'.timers = s.timers) (hqueue : s'.queue = s.queue) :
    Exact s' t := by
  refine ⟨h.sound.congr hqueue, ?_, fun f post hf => (h.ahead f post hf).congr htimers hqueue⟩
  rw [hqueue]
  exact h.range

/-- Whatever a processor does, the timers that were started stay exact. -/
theorem monitor : Monitor Exact where
  memory _ h := h.congr rfl rfl
  control _ h := h.congr rfl rfl
  interrupts _ h := h.congr rfl rfl
  wrote := by
    intro s t p lanes log r h
    refine ⟨h.sound.writeIo p lanes log r, ?_, fun f post hf => ?_⟩
    · rw [System.now_writeIo]
      exact h.range
    · rcases hf.append_cases with ⟨post', hf', rfl⟩ | hnew
      · refine (h.ahead f post' hf').writeIo h.sound p lanes log r (hf.untouched _ ?_)
        exact List.mem_append_right post' List.mem_cons_self
      · exact FreeRun.ahead_start h.sound h.range hnew

/-- Preparing to run for some time schedules an event that is no overflow. -/
theorem prepare {s : Session} (h : Exact s.system t) (cycles : UInt64) (log : Log) :
    Exact (s.prepare cycles log).system t := by
  have hnow : (s.prepare cycles log).system.queue.now = s.system.queue.now :=
    EventQueue.now_schedule _ _ _
  refine ⟨(h.sound.schedule Event.pause_known cycles.toInt64).congr rfl, ?_, fun f post hf => ?_⟩
  · rw [hnow]
    exact h.range
  · have hne : Event.pause ≠ f.event := fun heq => by cases heq
    exact (h.ahead f post hf).frame (.refl _ _) hnow
      (FreeRun.waits_schedule h.sound hne cycles.toInt64)

/-- An advance keeps every started timer exact: its instruction may start timers, and the events
that it fires carry each timer over all overflows up to the new time. -/
theorem advance {s s' : Session} {log log' : Log} (h : Exact s.system t)
    (returned : s.advance? log = some (s', log')) (range : s'.now.toNat < 2 ^ 62) :
    Exact s'.system (t ++ s.advanceTrace log) := by
  obtain ⟨fuel, settled, log'', hsettle, hs', htrace, hbound, hsettled, hpositive⟩ :=
    Session.advance_inversion h.sound returned range
  have hstepped : Exact (s.stepCpu s.next log).1.system (t ++ s.instructionTrace s.next log) :=
    monitor.instruction s.next h log
  have hclock : clockBound = 2 ^ 62 + 2 ^ 32 := rfl
  have hnow := hstepped.range
  refine ⟨?_, range, fun f post hf => ?_⟩
  · rw [hs']
    exact Session.sound_rebase hsettled hpositive
  · rw [htrace, List.append_assoc, ← List.append_assoc] at hf
    rcases hf.append_cases with ⟨post', hf', rfl⟩ | hnew
    · -- The start is in the past of the advance or in its instruction.
      have hwithin := (hstepped.ahead f post' hf').within (s.settleTarget log)
      have hahead := hwithin.settle hbound hstepped.sound (by omega) hsettle
      rw [hs', ← List.append_assoc]
      exact FreeRun.Ahead.rebase
        (s := { (s.stepCpu s.next log).1 with system := settled }) hahead hpositive
    · refine absurd hnew (FreeRun.not_startsIn fun p r before after hmem => ?_)
      rcases List.mem_append.mp hmem with hmem | hmem
      · obtain ⟨event, now, heq⟩ := Session.eq_fired_of_mem_settleTrace hsettle hmem
        cases heq
      · cases List.mem_singleton.mp hmem

/-- Every step of a session keeps every started timer exact. -/
theorem step {s s' : Session} (h : Exact s.system t) (hstep : s.Step u s')
    (range : s'.now.toNat < 2 ^ 62) : Exact s'.system (t ++ u) := by
  cases hstep with
  | advance returned => exact h.advance returned range
  | instruction p log => exact monitor.instruction p h log
  | read p w address log =>
    rw [List.append_nil, Monitor.hostRead]
    exact h
  | write p w address value log => exact monitor.hostWrite p w address value h log
  | interrupt p i =>
    rw [List.append_nil]
    exact h.congr rfl rfl
  | replaceCpu p cpu =>
    rw [List.append_nil]
    exact h
  | boot entry9 entry7 =>
    rw [List.append_nil]
    exact h.congr rfl rfl
  | prepare cycles log =>
    rw [List.append_nil]
    exact h.prepare cycles log

/-- Every run of a session keeps every started timer exact. -/
theorem run {s s' : Session} (h : Exact s.system t) (hrun : s.Run u s') :
    Exact s'.system (t ++ u) := by
  induction hrun with
  | refl =>
    rw [List.append_nil]
    exact h
  | step _ hstep range ih =>
    rw [← List.append_assoc]
    exact ih.step hstep range

end Exact

/-! ## Reading a free-running timer -/

/-- A timer that is ahead of its next overflow, by division of the cycles since its start. -/
theorem FreeRun.Ahead.reading {f : FreeRun} {s : System} {t : List Happening} (h : f.Ahead s t)
    (hsound : s.Sound) :
    ∃ elapsed, s.queue.now.toNat + loweredBy t = f.start + elapsed ∧
      ((s.timers.get f.cpu).read f.timer s.queue.now).toNat = f.reload.toNat +
        elapsed / f.control.prescaler.toNat % (0x10000 - f.reload.toNat) ∧
      overflows f.cpu f.timer 0 t =
        (List.range (elapsed / f.period)).map (fun k => (f.start + (k + 1) * f.period, 0)) ∧
      ∃ e, s.queue.events.filter (·.kind = f.event) = [e] ∧
        (s.queue.now.toNat : ℤ) < e.time.toInt := by
  obtain ⟨count, hholds, hlt⟩ := h
  obtain ⟨e, he, hkind, htime⟩ := hholds.waits
  have helapsed := hholds.elapsed
  generalize hrest : (s.queue.now - (s.timers.get f.cpu).startedAt.get f.timer).toNat = rest
    at helapsed
  have hreload := f.reload.toNat_lt
  obtain ⟨hscale, -⟩ := f.control.prescaler_bounds
  have hperiod : f.period = f.control.prescaler.toNat * (0x10000 - f.reload.toNat) := rfl
  have hpositive := f.period_bounds.1
  -- The time since the last overflow is the remainder of a division by the period.
  have hless : rest < f.period := by omega
  have hread := Timers.toNat_read hholds.countsTime hrest (by
    rw [hholds.counter, hholds.control]
    exact hless)
  rw [hholds.counter, hholds.control] at hread
  have hsteps : rest / f.control.prescaler.toNat < 0x10000 - f.reload.toNat :=
    Nat.div_lt_of_lt_mul hless
  refine ⟨count * f.period + rest, ?_, ?_, ?_, ⟨e, ?_, ?_⟩⟩
  · unfold due at helapsed
    zify
    linarith
  · have hdiv : (count * f.period + rest) / f.control.prescaler.toNat =
        count * (0x10000 - f.reload.toNat) + rest / f.control.prescaler.toNat := by
      rw [hperiod, Nat.mul_left_comm, Nat.mul_add_div (by omega)]
    rw [hread, hdiv, Nat.mul_add_mod_of_lt hsteps]
  · have hdiv : (count * f.period + rest) / f.period = count := by
      rw [Nat.mul_comm, Nat.mul_add_div (by omega), Nat.div_eq_of_lt hless, Nat.add_zero]
    rw [hdiv]
    exact hholds.handled
  · rw [← hkind]
    exact hsound.coherent.distinct.filter_kind he
  · rw [htime]
    exact hlt

namespace Session

/-- **A free-running timer is exact.** In a run of any session that a console can come to, let a
write switch a timer on so that it counts time, and let its registers be left alone afterwards.
Then the cycles `elapsed` since the start determine its counter, its overflows, each of which was
handled in time, and when the one event that waits for it is due. -/
theorem free_running_timer_exact {s₀ s : Session} {trace post : List Happening}
    {f : FreeRun} (reachable : s₀.Reachable) (run : s₀.Run trace s)
    (started : f.StartsIn trace post) :
    ∃ elapsed, s.now.toNat + loweredBy post = f.start + elapsed ∧
      ((s.system.timers.get f.cpu).read f.timer s.now).toNat = f.reload.toNat +
        elapsed / f.control.prescaler.toNat % (0x10000 - f.reload.toNat) ∧
      overflows f.cpu f.timer 0 post =
        (List.range (elapsed / f.period)).map (fun k => (f.start + (k + 1) * f.period, 0)) ∧
      ∃ e, s.system.queue.events.filter (·.kind = f.event) = [e] ∧
        (s.now.toNat : ℤ) < e.time.toInt := by
  obtain ⟨hsound, hrange⟩ := reachable.sound
  have hstart : Exact s₀.system [] :=
    ⟨hsound, hrange, fun f post hf => absurd hf FreeRun.not_startsIn_nil⟩
  have hexact := hstart.run run
  exact (hexact.ahead f post started).reading hexact.sound

/-- A console whose processors sleep. -/
def asleep : Session :=
  { new {} with cpus := ⟨{ isHalted := true }, { isHalted := true }⟩ }

/-- The console after its first timer was switched on, without any change to its reload value. -/
def timing : Session := (asleep.write .arm9 .half 0x4000102 0x80 {}).1

/-- The console after an advance. -/
def advanced (s : Session) : Session := ((s.advance? {}).getD (s, {})).1

/-- Two advances of a sleeping console take it to the first overflow of its timer. -/
theorem timing_exact :
    ∃ trace post, (new {}).Run trace timing.advanced.advanced ∧
      FreeRun.StartsIn ⟨.arm9, 0, ⟨0x80⟩, 0, 0⟩ trace post ∧
      timing.advanced.advanced.now = 131072 ∧
      ((timing.advanced.advanced.system.timers.get .arm9).read 0 131072).toNat = 0 ∧
      overflows .arm9 0 0 post = [(131072, 0)] := by
  let post : List Happening :=
    [.lowered 0, .fired ⟨System.overflowEvent .arm9 0, 0⟩ 131072, .lowered 0]
  have hasleep : (new {}).Run [] asleep := by
    have hfirst : (new {}).Run [] { new {} with cpus := ⟨{ isHalted := true }, {}⟩ } :=
      (Run.refl _).step (.replaceCpu _ .arm7 { isHalted := true }) (by decide)
    exact hfirst.step (.replaceCpu _ .arm9 { isHalted := true }) (by decide)
  have htiming : (new {}).Run [.wrote .arm9 (.timerControl 0) asleep.system timing.system] timing :=
    hasleep.step (.write asleep .arm9 .half 0x4000102 0x80 {}) (by decide)
  obtain ⟨log, hfirst⟩ : ∃ log, timing.advance? {} = some (timing.advanced, log) := ⟨_, rfl⟩
  obtain ⟨log', hsecond⟩ : ∃ log, timing.advanced.advance? {} =
    some (timing.advanced.advanced, log) := ⟨_, rfl⟩
  have hwaiting : (new {}).Run
      (.wrote .arm9 (.timerControl 0) asleep.system timing.system :: [.lowered 0])
      timing.advanced :=
    htiming.step (.advance hfirst) (by decide)
  have hrun : (new {}).Run
      (.wrote .arm9 (.timerControl 0) asleep.system timing.system :: post)
      timing.advanced.advanced :=
    hwaiting.step (.advance hsecond) (by decide)
  have hstarts : FreeRun.StartsIn ⟨.arm9, 0, ⟨0x80⟩, 0, 0⟩
      (.wrote .arm9 (.timerControl 0) asleep.system timing.system :: post) post := by
    refine ⟨⟨[], asleep.system, timing.system, rfl, rfl, rfl, rfl, rfl, rfl⟩, fun h hh => ?_⟩
    simp only [post, List.mem_cons, List.not_mem_nil, or_false] at hh
    rcases hh with rfl | rfl | rfl <;> exact id
  obtain ⟨elapsed, hnow, hread, hoverflows, -⟩ :=
    free_running_timer_exact (.new {}) hrun hstarts
  have hclock : timing.advanced.advanced.now = 131072 := rfl
  rw [hclock] at hnow hread
  obtain rfl : elapsed = 131072 := by
    have hsum : (131072 : ℕ) + 0 = 0 + elapsed := hnow
    omega
  exact ⟨_, post, hrun, hstarts, hclock, hread, hoverflows⟩

end Session
end Handheld.Console
