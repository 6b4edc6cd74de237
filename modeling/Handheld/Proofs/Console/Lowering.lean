import Handheld.Proofs.Console.Lockstep
import Handheld.Proofs.Console.Progress
import Handheld.Proofs.EventQueue.Lowering

/-!
# Lowered consoles

A console all of whose clocks are lowered by one amount: that of the event queue, the times of the
events that wait, the clocks of both processors and the starting times of all timers. Nothing else
in it tells the time, so it does what it did before, as much earlier.

* `System.lowered` and `Session.lowered` lower the devices and a session;
* `lockstep_lowering` says that no access of a processor sees the difference, so that a step of a
  processor commutes with lowering (`Session.stepCpu_lowered`);
* `System.dispatch_lowered` and `Session.settleWithin_lowered` say the same of events that fire.
-/

namespace Handheld.Console

/-! ## Timers -/

namespace Timers

variable (t : Timers) (amount : UInt64)

/-- The counter of a timer depends on how long ago it was started. -/
theorem read_rebase (i : Fin 4) (now : UInt64) :
    (t.rebase amount).read i (now - amount) = t.read i now := by
  have hstarted : (t.rebase amount).startedAt[i] = t.startedAt[i] - amount :=
    Vector.getElem_map _ _
  unfold read
  rw [hstarted, FreeRun.sub_sub_sub]
  rfl

theorem set_startedAt_rebase (i : Fin 4) (time : UInt64) :
    (t.rebase amount).startedAt.set i (time - amount) i.isLt =
      (t.startedAt.set i time i.isLt).map (· - amount) :=
  (Vector.map_set ..).symm

theorem writeControl_rebase (i : Fin 4) (lanes : Lanes) (now : UInt64) :
    (t.rebase amount).writeControl i lanes (now - amount) =
      ((t.writeControl i lanes now).1.rebase amount, (t.writeControl i lanes now).2) := by
  unfold writeControl
  rw [read_rebase]
  dsimp only
  rw [set_startedAt_rebase]
  by_cases hcounts : TimerControl.countsTime ⟨lanes.merge16 t.control[i].raw⟩ i = true
  · rw [if_pos hcounts]
    exact if_pos hcounts
  · rw [if_neg hcounts]
    exact if_neg hcounts

variable {t}

theorem overflowFrom_rebase {after : ℕ} (h : after < 4) (c : InterruptController) :
    overflowFrom after h (t.rebase amount) c =
      ((overflowFrom after h t c).1.rebase amount, (overflowFrom after h t c).2) := by
  induction after generalizing t c with
  | zero => rfl
  | succ after ih =>
    let i : Fin 4 := ⟨3 - (after + 1), by omega⟩
    let next : Fin 4 := ⟨3 - after, by omega⟩
    let restarted : Timers := { t with counters := t.counters.set i t.reload[i] }
    rw [overflowFrom, overflowFrom]
    dsimp only
    -- Whether the next timer counts up, and runs over in turn, has nothing to do with times.
    by_cases hchained : (t.control[next].isEnabled && t.control[next].countsUp) = true
    · rw [if_pos hchained]
      refine (if_pos hchained).trans ?_
      by_cases hfull : restarted.counters[next] = 0xFFFF
      · rw [if_pos hfull]
        exact (if_pos hfull).trans (@ih restarted (by omega) _)
      · rw [if_neg hfull]
        exact if_neg hfull
    · rw [if_neg hchained]
      exact if_neg hchained

variable (t)

theorem onOverflow_rebase (c : InterruptController) (i : Fin 4) (now : UInt64) (lateBy : Int64) :
    (t.rebase amount).onOverflow c i (now - amount) lateBy =
      ((t.onOverflow c i now lateBy).1.rebase amount, (t.onOverflow c i now lateBy).2) := by
  have htime : now - amount - lateBy.toUInt64 = now - lateBy.toUInt64 - amount := by
    grind
  unfold onOverflow overflow
  rw [overflowFrom_rebase]
  dsimp only
  rw [htime, set_startedAt_rebase]
  rfl

end Timers

/-! ## Devices -/

namespace System

/-- The devices with all clocks lowered. -/
def lowered (amount : UInt64) (s : System) : System :=
  { s with
    queue := s.queue.lowered amount
    timers := s.timers.map (·.rebase amount) }

variable {s : System} {amount : UInt64}

theorem lowered_lowered (a b : UInt64) (s : System) :
    (s.lowered a).lowered b = s.lowered (a + b) := by
  have htimers : ∀ t : Timers, (t.rebase a).rebase b = t.rebase (a + b) := by
    intro t
    have hcompose : (fun x : UInt64 => x - b) ∘ (fun x => x - a) = fun x => x - (a + b) :=
      funext fun x => sub_sub x a b
    unfold Timers.rebase
    dsimp only
    rw [Vector.map_map, hcompose]
  unfold lowered PerProcessor.map
  dsimp only
  rw [EventQueue.lowered_lowered, htimers, htimers]

/-- Sound devices stay as they are if they are lowered by nothing. -/
theorem Sound.lowered_zero (h : s.Sound) : s.lowered 0 = s := by
  have htimers : ∀ t : Timers, t.rebase 0 = t := by
    intro t
    have hsame : (fun x : UInt64 => x - 0) = id := funext fun x => x.sub_zero
    unfold Timers.rebase
    rw [hsame, Vector.map_id]
  unfold System.lowered PerProcessor.map
  dsimp only
  rw [h.coherent.lowered_zero, htimers, htimers]

/-! ### Registers -/

theorem ioValue_lowered (p : Processor) (r : IoRegister) :
    (s.lowered amount).ioValue p r = s.ioValue p r := by
  cases r with
  | timerCounter i =>
    show (((s.timers.map (·.rebase amount)).get p).read i (s.queue.now - amount)).toUInt32 = _
    rw [FreeRun.get_map, Timers.read_rebase]
    rfl
  | timerControl i =>
    show (((s.timers.map (·.rebase amount)).get p).readControl i).toUInt32 = _
    rw [FreeRun.get_map]
    rfl
  | _ => rfl

/-- Scheduling an event, a refusal of which is reported alike. -/
theorem schedule_lowered (h : s.queue.Lowerable amount) (event : Event) {delay : Int64}
    (hdelay : s.queue.now.toNat + delay.toInt < 2 ^ 63) (log : Log) :
    (s.lowered amount).schedule event delay log =
      Prod.map (lowered amount) id (s.schedule event delay log) := by
  have hlog : (if (s.queue.lowered amount).refuses event then log.add (.queueFull event.text)
      else log) = if s.queue.refuses event then log.add (.queueFull event.text) else log := by
    rw [EventQueue.refuses_lowered]
  show ({ s.lowered amount with queue := (s.queue.lowered amount).schedule event delay },
      if (s.queue.lowered amount).refuses event then log.add (.queueFull event.text)
      else log) = _
  rw [hlog, (h.schedule_lowered event hdelay).1]
  rfl

theorem writeIpc_lowered (p : Processor) (lanes : Lanes) :
    (s.lowered amount).writeIpc p lanes = (s.writeIpc p lanes).lowered amount := by
  unfold writeIpc
  dsimp only
  by_cases hraises : (s.ipc.write p lanes).2 = true
  · rw [if_pos hraises]
    exact if_pos hraises
  · rw [if_neg hraises]
    exact if_neg hraises

/-- Whatever a device does to the queue, it can still be lowered by as much. -/
theorem Follows.lowerable {q q' : EventQueue Event} (h : Follows q q')
    (hlowerable : q.Lowerable amount) (hnow : q.now.toNat < clockBound) :
    q'.Lowerable amount := by
  have hclock : clockBound = 2 ^ 62 + 2 ^ 32 := rfl
  rcases h with rfl | ⟨event, -, -, delay, -, hhigh, rfl⟩
  · exact hlowerable
  · exact (hlowerable.schedule_lowered event (by omega)).2

variable (h : s.queue.Lowerable amount) (hnow : s.queue.now.toNat < clockBound)

include h hnow

theorem writeTimerControl_lowered (p : Processor) (i : Fin 4) (lanes : Lanes) (log : Log) :
    (s.lowered amount).writeTimerControl p i lanes log =
      Prod.map (lowered amount) id (s.writeTimerControl p i lanes log) := by
  have hclock : clockBound = 2 ^ 62 + 2 ^ 32 := rfl
  have htimers : (s.lowered amount).timers.get p = (s.timers.get p).rebase amount :=
    FreeRun.get_map _ _ p
  have hqueue : (s.lowered amount).queue.now = s.queue.now - amount := rfl
  unfold writeTimerControl
  rw [htimers, hqueue, Timers.writeControl_rebase]
  rcases hwritten : (s.timers.get p).writeControl i lanes s.queue.now with ⟨timers, _ | delay⟩
  · cases p <;> rfl
  · have hdelay := Timers.delay_writeControl (congrArg Prod.snd hwritten)
    have hset : { s.lowered amount with
        timers := (s.lowered amount).timers.set p (timers.rebase amount) } =
        ({ s with timers := s.timers.set p timers } : System).lowered amount := by
      cases p <;> rfl
    dsimp only
    rw [hset]
    have hrange : s.queue.now.toNat + delay.toInt < 2 ^ 63 := by omega
    exact schedule_lowered (s := { s with timers := s.timers.set p timers }) h _ hrange log

/-- A write to a device register does the same to lowered devices. -/
theorem writeIo_lowered (p : Processor) (lanes : Lanes) (log : Log) (r : IoRegister) :
    (s.lowered amount).writeIo p lanes log r =
      Prod.map (lowered amount) id (s.writeIo p lanes log r) := by
  have hclock : clockBound = 2 ^ 62 + 2 ^ 32 := rfl
  have hdivision : ∀ divider : Divider, ({ s.lowered amount with divider }).startDivision log =
      Prod.map (lowered amount) id (({ s with divider } : System).startDivision log) := by
    intro divider
    have hlatency := (divider.update.setBusy true).latency_bounds
    have hdelay : s.queue.now.toNat + (divider.update.setBusy true).latency.toInt < 2 ^ 63 := by
      omega
    exact schedule_lowered (s := { s with divider := divider.update.setBusy true }) h
      .divisionDone hdelay log
  have hroot : ∀ squareRoot : SquareRoot,
      ({ s.lowered amount with squareRoot }).startSquareRoot log =
      Prod.map (lowered amount) id (({ s with squareRoot } : System).startSquareRoot log) := by
    intro squareRoot
    have hlatency : SquareRoot.latency.toInt ≤ 2 ^ 27 := by decide
    have hdelay : s.queue.now.toNat + SquareRoot.latency.toInt < 2 ^ 63 := by omega
    exact schedule_lowered (s := { s with squareRoot := squareRoot.update.setBusy true }) h
      .squareRootDone hdelay log
  cases r with
  | divisionControl | numerator | denominator => exact hdivision _
  | squareRootControl | squareRootInput => exact hroot _
  | timerCounter i => cases p <;> rfl
  | timerControl i => exact writeTimerControl_lowered h hnow p i lanes log
  | ipcSync =>
    exact congrArg (·, log) (writeIpc_lowered p lanes)
  | _ => rfl

/-! ### Events -/

theorem onTimerOverflow_lowered (p : Processor) (i : Fin 4) (log : Log) :
    (s.lowered amount).onTimerOverflow p i 0 log =
      Prod.map (lowered amount) id (s.onTimerOverflow p i 0 log) := by
  have hclock : clockBound = 2 ^ 62 + 2 ^ 32 := rfl
  have htimers : (s.lowered amount).timers.get p = (s.timers.get p).rebase amount :=
    FreeRun.get_map _ _ p
  have hcounts : ((s.lowered amount).timers.get p).countsTime i =
      (s.timers.get p).countsTime i := by
    rw [htimers]
    rfl
  have hqueue : (s.lowered amount).queue.now = s.queue.now - amount := rfl
  have hinterrupts : (s.lowered amount).interrupts = s.interrupts := rfl
  unfold onTimerOverflow
  dsimp only
  by_cases hcounting : (s.timers.get p).countsTime i = true
  · have hdelay := (s.timers.get p).delay_onOverflow (s.interrupts.get p) i s.queue.now
    rw [if_pos hcounting, hcounts, if_pos hcounting, htimers, hqueue, hinterrupts,
      Timers.onOverflow_rebase]
    rcases hdone : (s.timers.get p).onOverflow (s.interrupts.get p) i s.queue.now 0 with
      ⟨timers, interrupts, delay⟩
    rw [hdone] at hdelay
    dsimp only at hdelay
    let overflowed : System :=
      { s with timers := s.timers.set p timers, interrupts := s.interrupts.set p interrupts }
    have hset : { s.lowered amount with
        timers := (s.lowered amount).timers.set p (timers.rebase amount)
        interrupts := s.interrupts.set p interrupts } = overflowed.lowered amount := by
      cases p <;> rfl
    have hrange : s.queue.now.toNat + delay.toInt < 2 ^ 63 := by omega
    dsimp only
    rw [hset]
    exact schedule_lowered (s := overflowed) h _ hrange _
  · rw [if_neg hcounting, hcounts, if_neg hcounting]
    rfl

/-- An event that fires, and at its time unless it ends a run, does the same to lowered devices. -/
theorem dispatch_lowered {event : Fired Event} (htime : event.kind ≠ .pause → event.lateBy = 0)
    (log : Log) :
    (s.lowered amount).dispatch event log =
      Prod.map (lowered amount) id (s.dispatch event log) := by
  obtain ⟨kind, lateBy⟩ := event
  cases kind with
  | pause | divisionDone | squareRootDone => rfl
  | timerOverflow timer isArm9 =>
    obtain rfl : lateBy = 0 := htime nofun
    unfold dispatch
    dsimp only
    by_cases hexists : timer.toNat < 4
    · rw [dif_pos hexists, dif_pos hexists]
      exact onTimerOverflow_lowered h hnow _ _ _
    · rw [dif_neg hexists, dif_neg hexists]
      rfl

end System

/-! ## Processors -/

/-- Devices, and the same ones with all clocks lowered. -/
structure Lowering (amount : UInt64) (s t : System) : Prop where
  eq : t = s.lowered amount
  lowerable : s.queue.Lowerable amount
  range : s.queue.now.toNat < clockBound

/-- **No access shows that the clocks were lowered.** -/
theorem lockstep_lowering (amount : UInt64) : Lockstep (Lowering amount) where
  memory h := by rw [h.eq]; rfl
  control h := by rw [h.eq]; rfl
  interrupts h := by rw [h.eq]; rfl
  withMemory h memory := ⟨by rw [h.eq]; rfl, h.lowerable, h.range⟩
  withInterrupts h interrupts := ⟨by rw [h.eq]; rfl, h.lowerable, h.range⟩
  ioValue h p r := by
    rw [h.eq]
    exact System.ioValue_lowered p r
  writeIo {s t} h p lanes log r := by
    have hfollows := s.writeIo_follows p lanes log r
    rw [h.eq, System.writeIo_lowered h.lowerable h.range p lanes log r]
    refine ⟨rfl, rfl, hfollows.lowerable h.lowerable h.range, ?_⟩
    rw [System.now_writeIo]
    exact h.range

/-- So the processors do the same. -/
theorem fullSimulation_lowering (amount : UInt64) (p : Processor) :
    FullSimulation (core p) (core p) (Paired (Lowering amount)) :=
  (lockstep_lowering amount).fullSimulation
    (fun h control => ⟨by rw [h.eq]; rfl, h.lowerable, h.range⟩) (fun h => by rw [h.eq]; rfl) p

/-! ## Events -/

/-- The event, if the happening is that it fires. -/
def Happening.fired? : Happening → Option (Fired Event)
  | .fired event _ => some event
  | .wrote .. | .lowered _ => none

namespace Session

section Events

variable {s : System} {amount target : UInt64}

theorem eventBound_lowered {q : EventQueue Event} (h : q.Lowerable amount)
    (htarget : amount.toNat ≤ target.toNat) :
    eventBound (q.lowered amount) (target - amount) = eventBound q target := by
  have hsub := EventQueue.toNat_sub_amount htarget
  have hevents : ∀ events : List (Pending Event), (∀ e ∈ events, e ∈ q.events) →
      (events.map (Pending.lower · amount.toInt64)).foldr
        (fun e n => ((target - amount).toNat - e.time.toInt : ℤ).toNat / 2 + 1 + n) 0 =
      events.foldr (fun e n => (target.toNat - e.time.toInt : ℤ).toNat / 2 + 1 + n) 0 := by
    intro events hall
    induction events with
    | nil => rfl
    | cons e events ih =>
      obtain ⟨he, hrest⟩ := List.forall_mem_cons.mp hall
      have htime := h.toInt_time he
      rw [List.map_cons, List.foldr_cons, List.foldr_cons, ih hrest]
      omega
  exact hevents q.events fun _ he => he

theorem max_sub_amount {now : UInt64} (hclock : amount.toNat ≤ now.toNat)
    (hnow : now.toNat ≤ target.toNat) :
    max (now - amount) (target - amount) = max now target - amount := by
  have hmax := EventQueue.toNat_max now target
  rw [← UInt64.toNat_inj, EventQueue.toNat_max, EventQueue.toNat_sub_amount hclock,
    EventQueue.toNat_sub_amount (hclock.trans hnow), EventQueue.toNat_sub_amount (by omega)]
  omega

theorem settleTrace_of_none (fuel : ℕ) (hpop : s.queue.popDue target = none) (log : Log) :
    settleTrace fuel target s log = [] := by
  unfold settleTrace
  rw [hpop]

theorem settleTrace_of_some (fuel : ℕ) {event : Fired Event} {queue : EventQueue Event}
    (hpop : s.queue.popDue target = some (event, queue)) (log : Log) :
    settleTrace (fuel + 1) target s log = .fired event queue.now ::
      settleTrace fuel target (({ s with queue } : System).dispatch event log).1
        (({ s with queue } : System).dispatch event log).2 := by
  rw [settleTrace, hpop]

theorem settleWithin_lowered_of_none (fuel : ℕ) (h : s.queue.Lowerable amount)
    (hnow : s.queue.now.toNat ≤ target.toNat) (hpop : s.queue.popDue target = none)
    (hlowered : (s.lowered amount).queue.popDue (target - amount) = none) (log : Log) :
    settleWithin fuel (target - amount) (s.lowered amount) log =
      (settleWithin fuel target s log).map (Prod.map (System.lowered amount) id) := by
  have hmoved : max (s.lowered amount).queue.now (target - amount) =
      max s.queue.now target - amount := max_sub_amount h.clock hnow
  rw [settleWithin_of_none fuel hpop, settleWithin_of_none fuel hlowered, hmoved]
  rfl

/-- **Firing events commutes with lowering**: the same events fire, in the same order and equally
late. -/
theorem settleWithin_lowered (fuel : ℕ) (hpunctual : s.Punctual 0)
    (h : s.queue.Lowerable amount) (hnow : s.queue.now.toNat ≤ target.toNat)
    (hrange : target.toNat < clockBound) (log : Log) :
    settleWithin fuel (target - amount) (s.lowered amount) log =
      (settleWithin fuel target s log).map (Prod.map (System.lowered amount) id) ∧
    (settleTrace fuel (target - amount) (s.lowered amount) log).filterMap Happening.fired? =
      (settleTrace fuel target s log).filterMap Happening.fired? := by
  have hclock : clockBound = 2 ^ 62 + 2 ^ 32 := rfl
  induction fuel generalizing s log with
  | zero =>
    have hlowered : (s.lowered amount).queue.popDue (target - amount) = _ :=
      h.popDue_lowered hnow (by omega)
    cases hpop : s.queue.popDue target with
    | none =>
      rw [hpop] at hlowered
      rw [settleTrace_of_none 0 hpop, settleTrace_of_none 0 hlowered]
      exact ⟨settleWithin_lowered_of_none 0 h hnow hpop hlowered log, rfl⟩
    | some next =>
      rw [hpop] at hlowered
      unfold settleWithin settleTrace
      rw [hpop, hlowered]
      exact ⟨rfl, rfl⟩
  | succ fuel ih =>
    have hlowered : (s.lowered amount).queue.popDue (target - amount) = _ :=
      h.popDue_lowered hnow (by omega)
    cases hpop : s.queue.popDue target with
    | none =>
      rw [hpop] at hlowered
      rw [settleTrace_of_none _ hpop, settleTrace_of_none _ hlowered]
      exact ⟨settleWithin_lowered_of_none _ h hnow hpop hlowered log, rfl⟩
    | some next =>
      obtain ⟨event, queue⟩ := next
      rw [hpop] at hlowered
      -- Only the event that ends a run may be late, and it does not look at the time.
      obtain ⟨-, hle, htime, -⟩ := hpunctual.popDue hrange hnow hpop
      obtain ⟨hpunctual', hle', hfollows, -⟩ := hpunctual.fire hrange hnow hpop log
      have hpopped : queue.Lowerable amount := h.popDue (by omega) hpop
      have hdispatched : ({ s.lowered amount with queue := queue.lowered amount } : System).dispatch
          event log = _ := System.dispatch_lowered (s := { s with queue }) hpopped
        (hle.trans_lt hrange) htime log
      obtain ⟨hsettled, htrace⟩ := ih hpunctual'
        (hfollows.lowerable hpopped (hle.trans_lt hrange)) hle' _
      rw [settleTrace_of_some fuel hpop, settleTrace_of_some fuel hlowered,
        settleWithin_of_some fuel hpop, settleWithin_of_some fuel hlowered, hdispatched]
      exact ⟨hsettled, congrArg (event :: ·) htrace⟩

end Events

/-! ## Sessions -/

/-- The session with all clocks lowered. -/
def lowered (amount : UInt64) (s : Session) : Session :=
  { s with
    system := s.system.lowered amount
    clocks := s.clocks.map (· - amount) }

variable {s : Session} {amount : UInt64} {log : Log}

theorem map_set (clocks : PerProcessor UInt64) (f : UInt64 → UInt64) (p : Processor)
    (clock : UInt64) : (clocks.set p clock).map f = (clocks.map f).set p (f clock) := by
  cases p <;> rfl

theorem eq_of_parts {s t : Session} (hcpus : s.cpus = t.cpus) (hsystem : s.system = t.system)
    (hclocks : s.clocks = t.clocks) : s = t := by
  cases s
  cases t
  cases hcpus
  cases hsystem
  cases hclocks
  rfl

theorem lowered_lowered (a b : UInt64) (s : Session) :
    (s.lowered a).lowered b = s.lowered (a + b) := by
  have hclock : ∀ x : UInt64, x - a - b = x - (a + b) := fun x => sub_sub x a b
  unfold lowered PerProcessor.map
  dsimp only
  rw [System.lowered_lowered, hclock, hclock]

theorem lowered_zero (h : s.system.Sound) : s.lowered 0 = s := by
  unfold lowered PerProcessor.map
  dsimp only
  rw [h.lowered_zero, UInt64.sub_zero, UInt64.sub_zero]

/-- Lowering all clocks once the queue's has come far enough. -/
theorem rebase_eq_lowered (h : ¬ s.system.queue.now < EventQueue.rebaseAt) :
    s.rebase = s.lowered EventQueue.rebaseAt := by
  unfold rebase
  rw [EventQueue.rebase_eq_lowered h]
  rfl

/-! ### A step of a processor -/

theorem next_lowered (h : ∀ p, amount.toNat ≤ (s.clocks.get p).toNat) :
    (s.lowered amount).next = s.next := by
  have hiff : s.clocks.arm9 - amount ≤ s.clocks.arm7 - amount ↔
      s.clocks.arm9 ≤ s.clocks.arm7 := by
    have h7 := h .arm7
    have h9 := h .arm9
    change amount.toNat ≤ s.clocks.arm7.toNat at h7
    change amount.toNat ≤ s.clocks.arm9.toNat at h9
    rw [UInt64.le_iff_toNat_le, UInt64.le_iff_toNat_le, EventQueue.toNat_sub_amount h7,
      EventQueue.toNat_sub_amount h9]
    omega
  unfold next
  exact if_congr hiff rfl rfl

/-- A clock that skips ahead gets as far. -/
theorem idleTarget_lowered {own other : UInt64} (hown : amount.toNat ≤ own.toNat)
    (hother : amount.toNat ≤ other.toNat) (hrange : other.toNat < 2 ^ 63) (otherHalted : Bool)
    {q : EventQueue Event} (h : q.Lowerable amount) :
    idleTarget (own - amount) (other - amount) otherHalted (q.lowered amount).nextTime? =
      idleTarget own other otherHalted q.nextTime? - amount := by
  have hnext : (other + 1).toNat = other.toNat + 1 := by
    rw [UInt64.toNat_add]
    exact Nat.mod_eq_of_lt (by show other.toNat + 1 < 2 ^ 64; omega)
  have hlowered : other - amount + 1 = other + 1 - amount := by
    grind
  have hsucc := EventQueue.toNat_sub_amount (show amount.toNat ≤ (other + 1).toNat by omega)
  have hforward := le_idleTarget own other otherHalted q.nextTime?
  rw [← UInt64.toNat_inj, EventQueue.toNat_sub_amount (hown.trans hforward), toNat_idleTarget,
    toNat_idleTarget, hlowered, hsucc, EventQueue.toNat_sub_amount hown]
  rcases h.nextTime_lowered with ⟨hnone, hnone'⟩ | ⟨t, t', hsome, hsome', htime⟩
  · rw [hnone, hnone']
    cases otherHalted
    · dsimp only
      omega
    · rfl
  · rw [hsome, hsome']
    cases otherHalted <;> (dsimp only; omega)

/-- **A step of a processor commutes with lowering.** -/
theorem stepCpu_lowered (h : s.system.queue.Lowerable amount)
    (hnow : s.system.queue.now.toNat < clockBound)
    (hclocks : ∀ p, amount.toNat ≤ (s.clocks.get p).toNat) (inRange : s.InRange) (p : Processor)
    (log : Log) :
    (s.lowered amount).stepCpu p log = Prod.map (lowered amount) id (s.stepCpu p log) ∧
      (s.stepCpu p log).1.system.queue.Lowerable amount := by
  have hstart : Paired (Lowering amount) (s.board p log) ((s.lowered amount).board p log) :=
    ⟨rfl, ⟨rfl, h, hnow⟩, rfl⟩
  obtain ⟨hcycles, hcpu, hsystem, hlog⟩ := (fullSimulation_lowering amount p).step hstart
  refine ⟨?_, hsystem.lowerable⟩
  have hget : ∀ q, (s.lowered amount).clocks.get q = s.clocks.get q - amount :=
    fun q => FreeRun.get_map _ _ q
  have hclock : ((s.lowered amount).stepCpu p log).1.clocks =
      (s.stepCpu p log).1.clocks.map (· - amount) := by
    have hother := inRange p.other
    rw [clocks_stepCpu, clocks_stepCpu, map_set, ← hcycles, hget, hget, hsystem.eq]
    refine congrArg (PerProcessor.set _ p) ?_
    split
    · exact idleTarget_lowered (hclocks p) (hclocks p.other) (by omega) _ hsystem.lowerable
    · grind
  exact Prod.ext (eq_of_parts (congrArg (s.cpus.set p) hcpu.symm) hsystem.eq hclock) hlog.symm

end Session
end Handheld.Console
