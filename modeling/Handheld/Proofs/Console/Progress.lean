import Handheld.Proofs.Console.Clocks
import Handheld.Proofs.Console.FreeRunningTimer
import Handheld.Proofs.Console.Punctuality

/-!
# Advances and runs

A session advances by a step of the processor that is behind. Its clock does not go back, and while
an event lies ahead it goes on: so a run comes to its end, whatever the processors do and whether
they sleep or not.

* `Consistent` is the invariant of every session that a console can come to;
* `Advanced` is what an advance does;
* `runFor_returns` says that every advance and every run returns.
-/

namespace Handheld.Console.Session

open Handheld.Console.System (Punctual Pausing)
open Happening

/-! ## The processor that is behind -/

/-- Both clocks are in range. -/
def InRange (s : Session) : Prop := ∀ p, (s.clocks.get p).toNat < 2 ^ 62

theorem toNat_min_clocks (clocks : PerProcessor UInt64) (p : Processor) :
    (min clocks.arm7 clocks.arm9).toNat =
      min (clocks.get p).toNat (clocks.get p.other).toNat := by
  rw [toNat_min]
  cases p with
  | arm7 => rfl
  | arm9 => exact min_comm _ _

theorem next_behind (s : Session) : s.clocks.get s.next ≤ s.clocks.get s.next.other := by
  unfold next
  by_cases h : s.clocks.arm9 ≤ s.clocks.arm7
  · rw [if_pos h]
    exact h
  · rw [if_neg h]
    exact UInt64.le_of_lt (UInt64.not_le.mp h)

theorem next_of_tie {s : Session} (h : s.clocks.arm7 = s.clocks.arm9) : s.next = .arm9 := by
  unfold next
  rw [h, if_pos (UInt64.le_refl _)]

/-! ## What an advance does -/

/-- What an advance does: a step of the processor that is behind, the main one on a tie, moves its
clock and not back; all clocks are then lowered alike; and the queue's clock is that of the slower
processor, with everything that waits ahead of it. -/
structure Advanced (s : Session) (log : Log) (s' : Session) : Prop where
  behind : s.clocks.get s.next ≤ s.clocks.get s.next.other
  tie : s.clocks.arm7 = s.clocks.arm9 → s.next = .arm9
  cpus : s'.cpus = s.cpus.set s.next ((core s.next).step (s.board s.next log)).2.cpu
  forward : s.clocks.get s.next ≤ (s.stepCpu s.next log).1.clocks.get s.next
  own : (s'.clocks.get s.next).toNat + loweredBy (s.advanceTrace log) =
    ((s.stepCpu s.next log).1.clocks.get s.next).toNat
  other : (s'.clocks.get s.next.other).toNat + loweredBy (s.advanceTrace log) =
    (s.clocks.get s.next.other).toNat
  clock : s'.now = min s'.clocks.arm7 s'.clocks.arm9
  ahead : ∀ e ∈ s'.system.queue.events, (s'.now.toNat : ℤ) < e.time.toInt

/-- The queue's clock is that of the slower processor, and what waits lies ahead of it. -/
structure Consistent (s : Session) : Prop where
  punctual : Punctual 1 s.system
  clock : s.now = min s.clocks.arm7 s.clocks.arm9

variable {s s' : Session} {log log' : Log}

/-- The processor that is behind is where the queue's clock is. -/
theorem Consistent.own_eq (h : s.Consistent) : (s.clocks.get s.next).toNat = s.now.toNat := by
  have hbehind := UInt64.le_iff_toNat_le.mp s.next_behind
  rw [h.clock, toNat_min_clocks _ s.next]
  omega

theorem Advanced.consistent (h : s.Advanced log s') (hsound : s'.system.Sound) :
    s'.Consistent := by
  refine ⟨⟨hsound, fun e he _ => ?_⟩, h.clock⟩
  have hahead := h.ahead e he
  unfold now at hahead
  omega

/-! ## Lowering the clocks -/

theorem loweredBy_eq_zero {t : List Happening} (h : ∀ amount, Happening.lowered amount ∉ t) :
    loweredBy t = 0 := by
  induction t with
  | nil => rfl
  | cons entry t ih =>
    have hrest := ih fun amount hmem => h amount (List.mem_cons_of_mem _ hmem)
    cases entry with
    | lowered amount => exact absurd List.mem_cons_self (h amount)
    | wrote | fired => exact hrest

/-- An instruction lowers no clock. -/
theorem loweredBy_instructionTrace (s : Session) (p : Processor) (log : Log) :
    loweredBy (s.instructionTrace p log) = 0 := by
  have hmonitor : Monitor fun _ t => loweredBy t = 0 :=
    ⟨fun _ h => h, fun _ h => h, fun _ h => h, fun p lanes log r h => by
      rw [loweredBy_append, h]
      rfl⟩
  exact hmonitor.instruction (s := s) (t := []) p rfl log

/-- Lowering the clocks lowers both alike, and neither below zero. -/
theorem clocks_rebase (h : s.now = min s.clocks.arm7 s.clocks.arm9) (p : Processor) :
    (s.rebase.clocks.get p).toNat + s.system.queue.rebase.1.toNat = (s.clocks.get p).toNat := by
  by_cases hlow : s.system.queue.now < EventQueue.rebaseAt
  · rw [rebase_of_lt hlow, EventQueue.rebase_of_lt hlow]
    rfl
  · have hclocks : s.rebase.clocks.get p = s.clocks.get p - EventQueue.rebaseAt := by
      unfold rebase
      rw [EventQueue.rebase_of_le hlow]
      exact FreeRun.get_map _ _ p
    have hle : EventQueue.rebaseAt.toNat ≤ (s.clocks.get p).toNat := by
      have hmin := toNat_min_clocks s.clocks p
      rw [← h] at hmin
      rw [UInt64.lt_iff_toNat_lt] at hlow
      unfold now at hmin
      omega
    rw [hclocks, EventQueue.rebase_of_le hlow,
      UInt64.toNat_sub_of_le _ _ (UInt64.le_iff_toNat_le.mpr hle)]
    exact Nat.sub_add_cancel hle

theorem cpus_rebase (s : Session) : s.rebase.cpus = s.cpus := by
  unfold rebase
  dsimp only
  split <;> rfl

theorem running_rebase (s : Session) : s.rebase.system.running = s.system.running := by
  unfold rebase
  dsimp only
  split <;> rfl

/-- The events that wait once the clocks were lowered are those that waited before, lowered as
much. -/
theorem mem_events_rebase (hpositive : ∀ e ∈ s.system.queue.events, 0 ≤ e.time.toInt)
    (kind : Event) (time : ℤ) :
    (∃ e ∈ s.rebase.system.queue.events, e.kind = kind ∧ e.time.toInt = time) ↔
    ∃ e ∈ s.system.queue.events, e.kind = kind ∧
      e.time.toInt = time + s.system.queue.rebase.1.toNat := by
  by_cases hlow : s.system.queue.now < EventQueue.rebaseAt
  · have hzero : (0 : UInt64).toNat = 0 := rfl
    rw [rebase_of_lt hlow, EventQueue.rebase_of_lt hlow, hzero, Nat.cast_zero, add_zero]
  · have hbias : EventQueue.rebaseAt.toNat = 0xF0000000 := rfl
    rw [system_rebase_of_le hlow, EventQueue.rebase_of_le hlow]
    dsimp only [EventQueue.refresh]
    simp only [List.mem_map, exists_exists_and_eq_and]
    rw [hbias]
    refine exists_congr fun e => and_congr_right fun he => and_congr_right fun _ => ?_
    have hlowest := hpositive e he
    rw [EventQueue.toInt_time_lower (by omega)]
    push_cast
    omega

/-! ## Advances -/

theorem settleTarget_eq (s : Session) (log : Log) :
    s.settleTarget log =
      min (s.stepCpu s.next log).1.clocks.arm7 (s.stepCpu s.next log).1.clocks.arm9 := rfl

theorem stepCpu_clock_other (s : Session) (p : Processor) (log : Log) :
    (s.stepCpu p log).1.clocks.get p.other = s.clocks.get p.other := by
  rw [clocks_stepCpu]
  exact PerProcessor.get_set_other _ _ _

/-- A step does not take a clock back. -/
theorem le_stepCpu_clock {p : Processor} (log : Log) (hclock : (s.clocks.get p).toNat < 2 ^ 62) :
    (s.clocks.get p).toNat ≤ ((s.stepCpu p log).1.clocks.get p).toNat := by
  cases hrun : (core p).canRun (s.board p log) with
  | true =>
    obtain ⟨k, -, hk, hclocks⟩ := stepCpu_of_awake hrun
    rw [hclocks, PerProcessor.get_set_self, UInt64.toNat_add]
    omega
  | false =>
    rw [stepCpu_of_asleep hrun]
    show _ ≤ ((s.clocks.set p _).get p).toNat
    rw [PerProcessor.get_set_self]
    exact le_idleTarget _ _ _ _

/-- As long as the other processor's clock is in range, so is the time up to which an advance
fires events. -/
theorem settleTarget_lt (h : s.InRange) (log : Log) : (s.settleTarget log).toNat < clockBound := by
  have hclock : clockBound = 2 ^ 62 + 2 ^ 32 := rfl
  have hother := h s.next.other
  rw [settleTarget_eq, toNat_min_clocks _ s.next, stepCpu_clock_other]
  omega

/-- What is known before the events of an advance are fired. -/
theorem Consistent.stepped (h : s.Consistent) (hnow : s.now.toNat < 2 ^ 62) (log : Log) :
    Punctual 0 (s.stepCpu s.next log).1.system ∧
      (s.stepCpu s.next log).1.system.queue.now.toNat ≤ (s.settleTarget log).toNat := by
  have hclock : clockBound = 2 ^ 62 + 2 ^ 32 := rfl
  have hbelow : s.now.toNat < clockBound := by omega
  have hmonitor := System.punctual_monitor (k := 1) (by omega) hbelow
  obtain ⟨hpunctual, hsame⟩ := hmonitor.instruction (t := []) s.next ⟨h.punctual, rfl⟩ log
  have hown := h.own_eq
  have hbehind := UInt64.le_iff_toNat_le.mp s.next_behind
  have hforward := le_stepCpu_clock log (hown.trans_lt hnow)
  refine ⟨Punctual.mono hpunctual (by omega), ?_⟩
  have hqueue : (s.stepCpu s.next log).1.system.queue.now = s.now := hsame
  rw [hqueue, settleTarget_eq, toNat_min_clocks _ s.next, stepCpu_clock_other]
  omega

/-- What is known once they are fired: the queue has come to the time up to which they were, and
all that still waits lies ahead of it. -/
theorem Consistent.fired (h : s.Consistent) (hnow : s.now.toNat < 2 ^ 62)
    (hrange : (s.settleTarget log).toNat < clockBound) {fuel : Nat} {settled : System}
    (returned : settleWithin fuel (s.settleTarget log) (s.stepCpu s.next log).1.system
      (s.stepCpu s.next log).2 = some (settled, log')) :
    settled.Sound ∧ settled.queue.now = s.settleTarget log ∧
      ∀ e ∈ settled.queue.events, ((s.settleTarget log).toNat : ℤ) < e.time.toInt := by
  have hclock : clockBound = 2 ^ 62 + 2 ^ 32 := rfl
  obtain ⟨hpunctual, hle⟩ := h.stepped hnow log
  obtain ⟨hsound, -, hlater⟩ := sound_settle hpunctual.sound returned
  refine ⟨hsound, now_settle hpunctual.sound hle returned, fun e he => ?_⟩
  have hlt := hlater e he
  rwa [Int64.lt_iff_toInt_lt, toInt_toInt64 (by omega)] at hlt

/-- An advance of a consistent session returns. -/
theorem Consistent.advance_returns (h : s.Consistent) (hnow : s.now.toNat < 2 ^ 62)
    (hrange : (s.settleTarget log).toNat < clockBound) :
    ∃ s' log', s.advance? log = some (s', log') := by
  obtain ⟨hpunctual, hle⟩ := h.stepped hnow log
  obtain ⟨settled, log', hsettle⟩ := settle_returns hpunctual hrange hle (s.stepCpu s.next log).2
  refine ⟨rebase { (s.stepCpu s.next log).1 with system := settled }, log', ?_⟩
  rw [advance_eq_bind, hsettle]
  rfl

/-- An advance in parts: the events that were due have been fired, and by how much the clocks are
then lowered is on record. -/
theorem Consistent.advance_inversion (h : s.Consistent) (hnow : s.now.toNat < 2 ^ 62)
    (hrange : (s.settleTarget log).toNat < clockBound)
    (returned : s.advance? log = some (s', log')) :
    ∃ fuel settled log'',
      settleWithin fuel (s.settleTarget log) (s.stepCpu s.next log).1.system
        (s.stepCpu s.next log).2 = some (settled, log'') ∧
      s' = rebase { (s.stepCpu s.next log).1 with system := settled } ∧
      settled.queue.rebase.1.toNat = loweredBy (s.advanceTrace log) ∧
      settled.Sound ∧ settled.queue.now = s.settleTarget log ∧
      ∀ e ∈ settled.queue.events, ((s.settleTarget log).toNat : ℤ) < e.time.toInt := by
  obtain ⟨fuel, settled, log'', hsettle, hs', htrace⟩ := advance_parts returned
  refine ⟨fuel, settled, log'', hsettle, hs', ?_, h.fired hnow hrange hsettle⟩
  have hfired : loweredBy (settleTrace fuel (s.settleTarget log)
      (s.stepCpu s.next log).1.system (s.stepCpu s.next log).2) = 0 := by
    refine loweredBy_eq_zero fun amount hmem => ?_
    obtain ⟨event, now, heq⟩ := eq_fired_of_mem_settleTrace hsettle hmem
    cases heq
  rw [htrace, loweredBy_append, loweredBy_append, loweredBy_instructionTrace, hfired]
  show _ = 0 + 0 + (_ + 0)
  omega

/-- An advance that returns does what it should. -/
theorem Consistent.advanced (h : s.Consistent) (hnow : s.now.toNat < 2 ^ 62)
    (hrange : (s.settleTarget log).toNat < clockBound)
    (returned : s.advance? log = some (s', log')) :
    s.Advanced log s' ∧ s'.system.Sound := by
  obtain ⟨fuel, settled, log'', -, rfl, hlowered, hsound, htime, hlater⟩ :=
    h.advance_inversion hnow hrange returned
  let full : Session := { (s.stepCpu s.next log).1 with system := settled }
  -- Nothing overdue waits, so lowering the clocks carries no time below its range.
  have hpositive : ∀ e ∈ full.system.queue.events, 0 ≤ e.time.toInt := by
    intro e he
    have hlt := hlater e he
    omega
  have hclock : full.now = min full.clocks.arm7 full.clocks.arm9 := htime
  have hclocks : ∀ p, (full.rebase.clocks.get p).toNat + loweredBy (s.advanceTrace log) =
      ((s.stepCpu s.next log).1.clocks.get p).toNat := by
    intro p
    rw [← hlowered]
    exact clocks_rebase hclock p
  have hnow' : (full.rebase.now.toNat : ℤ) =
      (s.settleTarget log).toNat - loweredBy (s.advanceTrace log) := by
    rw [← hlowered, ← htime]
    exact toNat_now_rebase full
  show s.Advanced log full.rebase ∧ full.rebase.system.Sound
  refine ⟨⟨s.next_behind, next_of_tie, ?_, ?_, hclocks s.next, ?_, ?_, fun e he => ?_⟩,
    sound_rebase hsound hpositive⟩
  · exact cpus_rebase full
  · rw [UInt64.le_iff_toNat_le]
    exact le_stepCpu_clock log (h.own_eq.trans_lt hnow)
  · rw [hclocks, stepCpu_clock_other]
  · have hown := hclocks s.next
    have hother := hclocks s.next.other
    rw [settleTarget_eq, toNat_min_clocks _ s.next] at hnow'
    rw [← UInt64.toNat_inj, toNat_min_clocks _ s.next]
    omega
  · obtain ⟨e', he', -, htime'⟩ := (mem_events_rebase hpositive e.kind e.time.toInt).mp
      ⟨e, he, rfl, rfl⟩
    have hlt := hlater e' he'
    change e'.time.toInt = _ + (settled.queue.rebase.1.toNat : ℤ) at htime'
    omega

/-! ## Every session is consistent -/

/-- What leaves queue and clocks alone leaves a session consistent. -/
theorem Consistent.congr (h : s.Consistent) (hqueue : s'.system.queue = s.system.queue)
    (hclocks : s'.clocks = s.clocks) : s'.Consistent := by
  refine ⟨h.punctual.congr hqueue, ?_⟩
  unfold now
  rw [hqueue, hclocks]
  exact h.clock

/-- So does what a processor does in between. -/
theorem Consistent.devices (h : s.Consistent) (hclocks : s'.clocks = s.clocks)
    (hdone : Punctual 1 s'.system ∧ s'.now = s.now) : s'.Consistent := by
  refine ⟨hdone.1, ?_⟩
  rw [hdone.2, hclocks]
  exact h.clock

/-- Every step keeps a session consistent. -/
theorem Consistent.step {t : List Happening} (h : s.Consistent) (hnow : s.now.toNat < 2 ^ 62)
    (hstep : s.Step t s') (range : s'.now.toNat < 2 ^ 62) : s'.Consistent := by
  have hclock : clockBound = 2 ^ 62 + 2 ^ 32 := rfl
  have hbelow : s.now.toNat < clockBound := by omega
  have hmonitor := System.punctual_monitor (k := 1) (by omega) hbelow
  cases hstep with
  | advance returned =>
    obtain ⟨-, -, -, -, -, -, hbound, -⟩ :=
      Session.advance_inversion h.punctual.sound returned range
    obtain ⟨hadvanced, hsound⟩ := h.advanced hnow hbound returned
    exact hadvanced.consistent hsound
  | instruction p log =>
    exact h.devices rfl (hmonitor.instruction (t := []) p ⟨h.punctual, rfl⟩ log)
  | read p w address log => exact h.congr (by rw [Monitor.hostRead]) rfl
  | write p w address value log =>
    exact h.devices rfl (hmonitor.hostWrite (t := []) p w address value ⟨h.punctual, rfl⟩ log)
  | interrupt p i => exact h.congr rfl rfl
  | replaceCpu p cpu => exact h.congr rfl rfl
  | boot entry9 entry7 => exact h.congr rfl rfl
  | prepare cycles log =>
    have hscheduled : Punctual 1
        { s.system with queue := s.system.queue.schedule .pause cycles.toInt64 } :=
      h.punctual.schedule hbelow Event.pause_known fun hpause => absurd rfl hpause
    exact h.devices rfl ⟨hscheduled.congr rfl, EventQueue.now_schedule _ _ _⟩

theorem Reachable.consistent (h : Reachable s) : s.Consistent := by
  induction h with
  | new config =>
    exact ⟨⟨.initial config, fun _ he => absurd he List.not_mem_nil⟩, rfl⟩
  | step reachable step range ih => exact ih.step reachable.sound.2 step range
  | restored _ _ ih _ => exact ih.congr rfl rfl

/-- Every advance of a session whose clocks are in range returns and does what it should. -/
theorem Reachable.advance_returns (h : Reachable s) (inRange : s.InRange) (log : Log) :
    ∃ s' log', s.advance? log = some (s', log') :=
  h.consistent.advance_returns h.sound.2 (settleTarget_lt inRange log)

theorem Reachable.advanced (h : Reachable s) (inRange : s.InRange)
    (returned : s.advance? log = some (s', log')) : s.Advanced log s' :=
  (h.consistent.advanced h.sound.2 (settleTarget_lt inRange log) returned).1

/-- An advance leads to a session that a console can come to. -/
theorem Reachable.advance (h : Reachable s) (inRange : s.InRange)
    (returned : s.advance? log = some (s', log')) : Reachable s' := by
  have hadvanced := h.advanced inRange returned
  have hother := hadvanced.other
  have hbound := inRange s.next.other
  have hmin := toNat_min_clocks s'.clocks s.next
  rw [← hadvanced.clock] at hmin
  exact h.step (.advance returned) (by omega)

/-! ## Progress -/

/-- While the end of a run lies ahead, every step takes a clock forward: a processor that can run
takes time to, and one that sleeps skips to an event that lies ahead. -/
theorem Consistent.lt_stepCpu_clock (h : s.Consistent) (inRange : s.InRange) {stop : ℤ}
    (hpausing : s.system.Pausing stop) (hstop : s.now.toNat < stop) (log : Log) :
    (s.clocks.get s.next).toNat < ((s.stepCpu s.next log).1.clocks.get s.next).toNat := by
  have hown := h.own_eq
  have hbehind := UInt64.le_iff_toNat_le.mp s.next_behind
  have hother := inRange s.next.other
  cases hrun : (core s.next).canRun (s.board s.next log) with
  | true =>
    obtain ⟨k, hpositive, hk, hclocks⟩ := stepCpu_of_awake hrun
    rw [hclocks, PerProcessor.get_set_self, UInt64.toNat_add]
    omega
  | false =>
    rw [stepCpu_of_asleep hrun]
    show _ < ((s.clocks.set s.next _).get s.next).toNat
    rw [PerProcessor.get_set_self]
    -- The first event is the end of the run, or another one, and all of them lie ahead.
    cases hevents : s.system.queue.events with
    | nil =>
      obtain ⟨-, e, he, -⟩ := hpausing
      rw [hevents] at he
      cases he
    | cons e rest =>
      have he : e ∈ s.system.queue.events := by
        rw [hevents]
        exact List.mem_cons_self
      have hahead : (s.now.toNat : ℤ) < e.time.toInt := by
        by_cases hkind : e.kind = .pause
        · rw [hpausing.time_eq h.punctual.sound he hkind]
          exact hstop
        · exact h.punctual.ahead e he hkind
      have hnext : s.system.queue.nextTime? = some (EventQueue.clampTime e.time) := by
        unfold EventQueue.nextTime?
        rw [hevents]
        rfl
      have hclamp := EventQueue.toNat_clampTime e.time
      rw [hnext]
      exact lt_idleTarget hbehind (by omega) _ (by omega)

/-- Cycles that the processors have left to the end of a run. -/
def remaining (stop : ℤ) (s : Session) : ℕ :=
  (stop - s.clocks.arm7.toNat).toNat + (stop - s.clocks.arm9.toNat).toNat

theorem remaining_eq (stop : ℤ) (s : Session) (p : Processor) :
    s.remaining stop = (stop - (s.clocks.get p).toNat).toNat +
      (stop - (s.clocks.get p.other).toNat).toNat := by
  cases p with
  | arm7 => rfl
  | arm9 => exact Nat.add_comm _ _

/-- An advance brings a run closer to its end, or ends it there. -/
theorem Reachable.advance_pausing (h : Reachable s) (inRange : s.InRange) {stop : ℤ}
    (hpausing : s.system.Pausing stop) (returned : s.advance? log = some (s', log')) :
    s'.system.Pausing (stop - loweredBy (s.advanceTrace log)) ∧
      s'.remaining (stop - loweredBy (s.advanceTrace log)) < s.remaining stop ∨
    s'.system.running = false ∧ stop ≤ s'.now.toNat + loweredBy (s.advanceTrace log) := by
  have hnow := h.sound.2
  have hrange := settleTarget_lt inRange log
  obtain ⟨hpunctual, hle⟩ := h.consistent.stepped hnow log
  obtain ⟨fuel, settled, log'', hsettle, hs', hlowered, -, htime, hlater⟩ :=
    h.consistent.advance_inversion hnow hrange returned
  have hadvanced := h.advanced inRange returned
  have hown := hadvanced.own
  have hother := hadvanced.other
  have hstepped : (s.stepCpu s.next log).1.system.Pausing stop :=
    (System.pausing_monitor.instruction (t := []) s.next ⟨h.sound.1, hpausing⟩ log).2
  rcases pausing_settle hpunctual hstepped hrange hle hsettle with
    ⟨⟨hrunning, e, he, hkind, hstop⟩, hbefore⟩ | ⟨hstopped, hafter⟩
  · -- The end lies beyond the slower clock after the step, and so beyond the one before it.
    have hslower := h.consistent.own_eq
    have hbehind := UInt64.le_iff_toNat_le.mp hadvanced.behind
    have hforward := UInt64.le_iff_toNat_le.mp hadvanced.forward
    rw [settleTarget_eq, toNat_min_clocks _ s.next, stepCpu_clock_other] at hbefore
    have hprogress := h.consistent.lt_stepCpu_clock inRange hpausing (by omega) log
    have hpositive : ∀ e ∈ settled.queue.events, 0 ≤ e.time.toInt := by
      intro e he
      have hlt := hlater e he
      omega
    refine .inl ⟨⟨?_, ?_⟩, ?_⟩
    · rw [hs', running_rebase]
      exact hrunning
    · rw [hs']
      refine (mem_events_rebase (s := { (s.stepCpu s.next log).1 with system := settled })
        hpositive .pause _).mpr ⟨e, he, hkind, ?_⟩
      show _ = _ + (settled.queue.rebase.1.toNat : ℤ)
      rw [hlowered, hstop]
      ring
    · rw [remaining_eq _ s' s.next, remaining_eq _ s s.next]
      omega
  · have hclock : (s'.now.toNat : ℤ) =
        (s.settleTarget log).toNat - loweredBy (s.advanceTrace log) := by
      rw [hs', ← hlowered, ← htime]
      exact toNat_now_rebase _
    right
    rw [hs', running_rebase, ← hs']
    exact ⟨hstopped, by omega⟩

/-! ## Runs -/

/-- The sessions that a run passes, each with the record and the log so far. -/
inductive Passes (s : Session) (log : Log) : List Happening → Session → Log → Prop
  | start : Passes s log [] s log
  | advance {t : List Happening} {a b : Session} {log₁ log₂ : Log} (passed : Passes s log t a log₁)
    (running : a.system.running = true) (returned : a.advance? log₁ = some (b, log₂)) :
    Passes s log (t ++ a.advanceTrace log₁) b log₂

/-- A run that begins with an advance. -/
theorem Passes.head {t : List Happening} {a : Session} {log₁ : Log}
    (running : s.system.running = true) (returned : s.advance? log = some (s', log'))
    (h : Passes s' log' t a log₁) : Passes s log (s.advanceTrace log ++ t) a log₁ := by
  induction h with
  | start =>
    rw [List.append_nil]
    exact Passes.start.advance running returned
  | advance _ hrunning hreturned ih =>
    rw [← List.append_assoc]
    exact ih.advance hrunning hreturned

/-- A run ends once its end has come, within as many advances as there are cycles left. -/
theorem runWithin_returns {fuel : ℕ} {stop : ℤ} (h : Reachable s)
    (inRange : ∀ t a log', Passes s log t a log' → a.InRange) (hpausing : s.system.Pausing stop)
    (hfuel : s.remaining stop < fuel) :
    ∃ s' log' t, s.runWithin fuel log = some (s', log') ∧ Passes s log t s' log' ∧
      s'.system.running = false ∧ stop ≤ s'.now.toNat + loweredBy t := by
  -- The end of the run is lowered with the clocks, so it varies along the induction.
  induction fuel generalizing s log stop with
  | zero => omega
  | succ fuel ih =>
    have hstart := inRange _ _ _ .start
    obtain ⟨s₁, log₁, returned⟩ := h.advance_returns hstart log
    have hrun : s.runWithin (fuel + 1) log = s₁.runWithin fuel log₁ := by
      rw [runWithin, hpausing.1, returned]
      rfl
    rcases h.advance_pausing hstart hpausing returned with ⟨hpausing₁, hless⟩ | ⟨hstopped, hstop⟩
    · obtain ⟨s', log', t, hreturned, hpasses, hstopped, hstop⟩ := ih (h.advance hstart returned)
        (fun t a log' hpasses => inRange _ _ _ (hpasses.head hpausing.1 returned)) hpausing₁
        (by omega)
      refine ⟨s', log', _, hrun.trans hreturned, hpasses.head hpausing.1 returned, hstopped, ?_⟩
      rw [loweredBy_append]
      push_cast
      omega
    · refine ⟨s₁, log₁, _, hrun.trans ?_, Passes.start.advance hpausing.1 returned, hstopped, hstop⟩
      unfold runWithin
      rw [hstopped]
      rfl

/-- Preparing to run for some time puts the end of the run where it belongs. -/
theorem pausing_prepare (h : Reachable s) {cycles : UInt64} (hcycles : cycles.toNat < 2 ^ 62)
    (log : Log) : (s.prepare cycles log).system.Pausing (s.now.toNat + cycles.toNat) := by
  obtain ⟨hsound, hnow⟩ := h.sound
  refine ⟨rfl, ⟨.pause, s.system.queue.dueTime cycles.toInt64⟩, ?_, rfl, ?_⟩
  · show _ ∈ (s.system.queue.schedule .pause cycles.toInt64).events
    rw [EventQueue.mem_schedule hsound.coherent (hsound.room _)]
    exact .inl rfl
  · unfold now at hnow ⊢
    have hdelay : cycles.toInt64.toInt = cycles.toNat := toInt_toInt64 (by omega)
    rw [← hdelay]
    exact EventQueue.toInt_dueTime _ (by omega) (by omega) (by omega)

theorem Passes.reachable {t : List Happening} {a : Session} (h : Passes s log t a log')
    (hstart : Reachable s) (inRange : ∀ t a log', Passes s log t a log' → a.InRange) :
    Reachable a := by
  induction h with
  | start => exact hstart
  | advance passed _ returned ih => exact ih.advance (inRange _ _ _ passed) returned

/-- **Running for some time returns, and keeps the clocks consistent.** Every advance of a session
that a console can come to returns and does what it should. So does a run for some cycles, whatever
the processors do and whether they sleep or not, with at least as many cycles passed on the queue's
clock, the lowering of the clocks added back; and every session that the run passes is one that a
console can come to. -/
theorem runFor_returns (reachable : Reachable s) (inRange : s.InRange) :
    (∀ log, ∃ s' log', s.advance? log = some (s', log') ∧ s.Advanced log s') ∧
    ∀ (cycles : UInt64) (log : Log), cycles.toNat < 2 ^ 62 →
      (∀ t a log', Passes (s.prepare cycles log) log t a log' → a.InRange) →
      ∃ s' log' t, s.runFor? cycles log = some (s', log') ∧
        Passes (s.prepare cycles log) log t s' log' ∧
        s.now.toNat + cycles.toNat ≤ s'.now.toNat + loweredBy t ∧
        ∀ t a log', Passes (s.prepare cycles log) log t a log' → Reachable a := by
  refine ⟨fun log => ?_, fun cycles log hcycles hpassing => ?_⟩
  · obtain ⟨s', log', returned⟩ := reachable.advance_returns inRange log
    exact ⟨s', log', returned, reachable.advanced inRange returned⟩
  · have hnow : (s.prepare cycles log).now = s.now := EventQueue.now_schedule _ _ _
    have hprepared : Reachable (s.prepare cycles log) :=
      reachable.step (.prepare s cycles log) (by rw [hnow]; exact reachable.sound.2)
    have hfuel : (s.prepare cycles log).remaining (s.now.toNat + cycles.toNat) <
        s.runBound cycles := by
      show (_ - (s.clocks.arm7.toNat : ℤ)).toNat + (_ - (s.clocks.arm9.toNat : ℤ)).toNat <
        (s.now.toNat + cycles.toNat - s.clocks.arm7.toNat) +
          (s.now.toNat + cycles.toNat - s.clocks.arm9.toNat) + 2
      omega
    obtain ⟨s', log', t, hreturned, hpasses, -, hstop⟩ := runWithin_returns hprepared hpassing
      (pausing_prepare reachable hcycles log) hfuel
    -- The queue has room for the end of the run, so nothing is reported.
    have hquiet : (s.system.schedule .pause cycles.toInt64 log).2 = log := by
      show (if s.system.queue.refuses Event.pause then _ else log) = log
      rw [reachable.sound.1.room, if_neg Bool.false_ne_true]
    have hrun : s.runFor? cycles log =
        (s.prepare cycles log).runWithin (s.runBound cycles) log := by
      rw [← congrArg ((s.prepare cycles log).runWithin (s.runBound cycles)) hquiet]
      rfl
    exact ⟨s', log', t, hrun.trans hreturned, hpasses, by omega,
      fun t a log' h => h.reachable hprepared hpassing⟩

theorem reachable_asleep : Reachable asleep := by
  have hfirst : Reachable { new {} with cpus := ⟨{ isHalted := true }, {}⟩ } :=
    (Reachable.new {}).step (.replaceCpu _ .arm7 { isHalted := true }) (by decide)
  exact hfirst.step (.replaceCpu _ .arm9 { isHalted := true }) (by decide)

/-- The console whose processors sleep, about to run for a hundred cycles. -/
def waiting : Session := asleep.prepare 100 {}

/-- A console whose processors sleep skips to the end of its run in two advances. -/
theorem runFor_asleep :
    Reachable asleep ∧ asleep.InRange ∧ (100 : UInt64).toNat < 2 ^ 62 ∧
    (∀ t a log', Passes waiting {} t a log' → a.InRange) ∧
    ∃ s' log' t, asleep.runFor? 100 {} = some (s', log') ∧
      Passes waiting {} t s' log' ∧ asleep.now.toNat + 100 ≤ s'.now.toNat + loweredBy t := by
  have hfirst : waiting.advance? {} = some (waiting.advanced, {}) := by rfl
  have hsecond : waiting.advanced.advance? {} = some (waiting.advanced.advanced, {}) := by rfl
  have hstopped : waiting.advanced.advanced.system.running = false := by rfl
  have hpassed : ∀ t a log', Passes waiting {} t a log' →
      log' = {} ∧ (a = waiting ∨ a = waiting.advanced ∨ a = waiting.advanced.advanced) := by
    intro t a log' h
    induction h with
    | start => exact ⟨rfl, .inl rfl⟩
    | advance _ running returned ih =>
      obtain ⟨rfl, rfl | rfl | rfl⟩ := ih
      · obtain ⟨rfl, rfl⟩ := Prod.mk.inj (Option.some.inj (hfirst.symm.trans returned))
        exact ⟨rfl, .inr (.inl rfl)⟩
      · obtain ⟨rfl, rfl⟩ := Prod.mk.inj (Option.some.inj (hsecond.symm.trans returned))
        exact ⟨rfl, .inr (.inr rfl)⟩
      · rw [hstopped] at running
        cases running
  have hinRange : ∀ t a log', Passes waiting {} t a log' → a.InRange := by
    intro t a log' h p
    obtain ⟨-, rfl | rfl | rfl⟩ := hpassed t a log' h <;> cases p <;> decide
  have hstart : asleep.InRange := by
    intro p
    cases p <;> decide
  obtain ⟨s', log', t, hreturned, hpasses, hlong, -⟩ :=
    (runFor_returns reachable_asleep hstart).2 100 {} (by decide) hinRange
  exact ⟨reachable_asleep, hstart, by decide, hinRange, s', log', t, hreturned, hpasses, hlong⟩

end Handheld.Console.Session
