import Mathlib
import Handheld.Proofs.Console.Recording
import Handheld.Proofs.Console.Scheduling

/-!
# Runs of a session

What can happen to a session, one step after the other: the session advances, a processor executes
an instruction, or the program around the session reads and writes memory, raises interrupts,
replaces a processor's state, starts the processors at their entry points, or prepares to run for
some time. Each step comes with the record of what it does to the devices. Clocks stay below
`2 ^ 62`.

Running for some time is preparing for it and then advancing, so it needs no step of its own.
-/

namespace Handheld.Console.Session

/-! ## Steps -/

/-- A session that is about to run for some time. -/
def prepare (cycles : UInt64) (s : Session) (log : Log) : Session :=
  { s with system := { (s.system.schedule .pause cycles.toInt64 log).1 with running := true } }

/-- A session that was saved and then loaded in place of another one, whose settings it takes
over. -/
def restored (saved current : Session) : Session :=
  { saved with
    system := { saved.system with config := current.system.config, running := false } }

/-- One thing that happens to a session, with the record of it. -/
inductive Step : Session → List Happening → Session → Prop
  | advance {s s' : Session} {log log' : Log} (returned : s.advance? log = some (s', log')) :
    Step s (s.advanceTrace log) s'
  | instruction (s : Session) (p : Processor) (log : Log) :
    Step s (s.instructionTrace p log) (s.onBoard p (core p).step log).2.1
  | read (s : Session) (p : Processor) (w : Width) (address : UInt32) (log : Log) :
    Step s [] (s.read p w address log).2.1
  | write (s : Session) (p : Processor) (w : Width) (address value : UInt32) (log : Log) :
    Step s (s.writeTrace p w address value log) (s.write p w address value log).1
  | interrupt (s : Session) (p : Processor) (i : Interrupt) : Step s [] (s.requestInterrupt p i)
  | replaceCpu (s : Session) (p : Processor) (cpu : CpuState) :
    Step s [] { s with cpus := s.cpus.set p cpu }
  | boot (s : Session) (entry9 entry7 : UInt32) : Step s [] (s.directBoot entry9 entry7)
  | prepare (s : Session) (cycles : UInt64) (log : Log) : Step s [] (s.prepare cycles log)

/-- Several steps, after each of which the clock is in range. -/
inductive Run : Session → List Happening → Session → Prop
  | refl (s : Session) : Run s [] s
  | step {s s' s'' : Session} {t u : List Happening} (run : Run s t s') (step : Step s' u s'')
      (range : s''.now.toNat < 2 ^ 62) : Run s (t ++ u) s''

/-- The sessions that a console can come to, which may also load what it has saved. -/
inductive Reachable : Session → Prop
  | new (config : Config) : Reachable (new config)
  | step {s s' : Session} {t : List Happening} (reachable : Reachable s) (step : Step s t s')
      (range : s'.now.toNat < 2 ^ 62) : Reachable s'
  | restored {saved current : Session} (reachable : Reachable saved) (other : Reachable current) :
    Reachable (saved.restored current)

/-! ## Running for some time -/

/-- Several advances. -/
abbrev Advances : Session → Session → Prop :=
  Relation.ReflTransGen fun s s' => ∃ log log', s.advance? log = some (s', log')

theorem advances_of_runWithin {fuel : Nat} {s s' : Session} {log log' : Log}
    (h : s.runWithin fuel log = some (s', log')) : Advances s s' := by
  induction fuel using Nat.strong_induction_on generalizing s log with
  | _ fuel ih =>
    unfold runWithin at h
    by_cases hrunning : (!s.system.running) = true
    · rw [if_pos hrunning] at h
      obtain ⟨rfl, rfl⟩ := Prod.mk.inj (Option.some.inj h)
      exact .refl
    · rw [if_neg hrunning] at h
      cases fuel with
      | zero => cases h
      | succ left =>
        cases hadvance : s.advance? log with
        | none =>
          rw [hadvance] at h
          cases h
        | some next =>
          obtain ⟨s₁, log₁⟩ := next
          rw [hadvance] at h
          exact .head ⟨log, log₁, hadvance⟩ (ih left (Nat.lt_succ_self left) h)

/-- Running for some time is preparing for it and then advancing. -/
theorem advances_of_runFor {cycles : UInt64} {s s' : Session} {log log' : Log}
    (h : s.runFor? cycles log = some (s', log')) : Advances (s.prepare cycles log) s' :=
  advances_of_runWithin h

/-! ## Soundness -/

/-- The time up to which an advance fires events: the slower of the two processors' clocks after
the step. -/
def settleTarget (s : Session) (log : Log) : UInt64 :=
  let stepped := (s.stepCpu s.next log).1
  min stepped.clocks.arm7 stepped.clocks.arm9

/-- An advance is a step of the processor that is behind, then the events that are due, then the
lowering of the clocks. -/
theorem advance_eq_bind (s : Session) (log : Log) :
    s.advance? log =
      (settle? (s.settleTarget log) (s.stepCpu s.next log).1.system (s.stepCpu s.next log).2).bind
        fun p => some (rebase { (s.stepCpu s.next log).1 with system := p.1 }, p.2) := rfl

/-- The parts of an advance that returned, and what happened in them. -/
theorem advance_parts {s s' : Session} {log log' : Log} (h : s.advance? log = some (s', log')) :
    let stepped := (s.stepCpu s.next log).1
    ∃ fuel settled log'',
      settleWithin fuel (s.settleTarget log) stepped.system (s.stepCpu s.next log).2 =
        some (settled, log'') ∧
      s' = rebase { stepped with system := settled } ∧
      s.advanceTrace log = s.instructionTrace s.next log ++
        settleTrace fuel (s.settleTarget log) stepped.system (s.stepCpu s.next log).2 ++
        [.lowered settled.queue.rebase.1] := by
  intro stepped
  rw [advance_eq_bind] at h
  obtain ⟨⟨settled, log''⟩, hsettle, hs'⟩ := Option.bind_eq_some_iff.mp h
  obtain ⟨rfl, rfl⟩ := Prod.mk.inj (Option.some.inj hs')
  unfold settle? at hsettle
  refine ⟨_, settled, log'', hsettle, rfl, ?_⟩
  unfold settleTarget at hsettle
  unfold advanceTrace settleTarget
  dsimp only
  rw [hsettle]

theorem sound_monitor : Monitor fun s _ => s.Sound where
  memory _ h := h.congr rfl
  control _ h := h.congr rfl
  interrupts _ h := h.congr rfl
  wrote p lanes log r h := h.writeIo p lanes log r

/-- Once the events that are due have been fired, the clock has reached the target, and every
event that waits is later. -/
theorem sound_settle {fuel : Nat} {target : UInt64} {s s' : System} {log log' : Log}
    (h : s.Sound) (returned : settleWithin fuel target s log = some (s', log')) :
    s'.Sound ∧ target.toNat ≤ s'.queue.now.toNat ∧
      ∀ e ∈ s'.queue.events, target.toInt64 < e.time := by
  induction fuel using Nat.strong_induction_on generalizing s log with
  | _ fuel ih =>
    rcases settle_inversion returned with ⟨hpop, rfl, -⟩ | ⟨left, event, queue, rfl, hpop, hrest, -⟩
    · refine ⟨⟨h.coherent.withNow _, h.kinds⟩, ?_, ?_⟩
      · show target.toNat ≤ (max s.queue.now target).toNat
        rw [EventQueue.toNat_max]
        omega
      · exact (EventQueue.popDue_eq_none_iff h.coherent target).mp hpop
    · exact ih left (Nat.lt_succ_self left) ((h.popDue hpop).dispatch event log) hrest

/-- An advance of a sound session in parts. Once its events have been fired nothing that waits is
overdue, so that lowering the clocks carries no time out of range. -/
theorem advance_inversion {s s' : Session} {log log' : Log} (hsound : s.system.Sound)
    (h : s.advance? log = some (s', log')) (range : s'.now.toNat < 2 ^ 62) :
    let stepped := (s.stepCpu s.next log).1
    ∃ fuel settled log'',
      settleWithin fuel (s.settleTarget log) stepped.system (s.stepCpu s.next log).2 =
        some (settled, log'') ∧
      s' = rebase { stepped with system := settled } ∧
      s.advanceTrace log = s.instructionTrace s.next log ++
        settleTrace fuel (s.settleTarget log) stepped.system (s.stepCpu s.next log).2 ++
        [.lowered settled.queue.rebase.1] ∧
      (s.settleTarget log).toNat < clockBound ∧ settled.Sound ∧
      ∀ e ∈ settled.queue.events, 0 ≤ e.time.toInt := by
  intro stepped
  obtain ⟨fuel, settled, log'', hsettle, hs', htrace⟩ := advance_parts h
  have hstepped : stepped.system.Sound := sound_monitor.instruction (t := []) s.next hsound log
  obtain ⟨hsettled, htarget, hlater⟩ := sound_settle hstepped hsettle
  have hdef : clockBound = 2 ^ 62 + 2 ^ 32 := rfl
  have hclock : (s'.now.toNat : ℤ) =
      settled.queue.now.toNat - settled.queue.rebase.1.toNat := by
    rw [hs']
    exact toNat_now_rebase _
  have hbias : settled.queue.rebase.1.toNat ≤ 0xF0000000 := by
    by_cases hlow : settled.queue.now < EventQueue.rebaseAt
    · rw [EventQueue.rebase_of_lt hlow]
      exact Nat.zero_le _
    · rw [EventQueue.rebase_of_le hlow]
      exact le_rfl
  -- The clock is in range once it was lowered, so it was not far beyond before.
  have hbound : (s.settleTarget log).toNat < clockBound := by omega
  refine ⟨fuel, settled, log'', hsettle, hs', htrace, hbound, hsettled, ?_⟩
  intro e he
  have hlt := hlater e he
  rw [Int64.lt_iff_toInt_lt, toInt_toInt64 (by omega)] at hlt
  omega

/-- Every step keeps a session sound. -/
theorem Step.sound {s s' : Session} {t : List Happening} (h : Step s t s')
    (hsound : s.system.Sound) (range : s'.now.toNat < 2 ^ 62) : s'.system.Sound := by
  cases h with
  | advance returned =>
    obtain ⟨fuel, settled, log'', -, rfl, -, -, hsettled, hpositive⟩ :=
      advance_inversion hsound returned range
    exact sound_rebase hsettled hpositive
  | instruction p log => exact sound_monitor.instruction (t := []) p hsound log
  | read p w address log =>
    rw [Monitor.hostRead]
    exact hsound
  | write p w address value log =>
    exact sound_monitor.hostWrite (t := []) p w address value hsound log
  | interrupt p i => exact hsound.congr rfl
  | replaceCpu p cpu => exact hsound
  | boot entry9 entry7 => exact hsound.congr rfl
  | prepare cycles log => exact (hsound.schedule Event.pause_known cycles.toInt64).congr rfl

/-- Every session that a console can come to is sound, and its clock is in range. -/
theorem Reachable.sound {s : Session} (h : Reachable s) :
    s.system.Sound ∧ s.now.toNat < 2 ^ 62 := by
  induction h with
  | new config => exact ⟨.initial config, by show (0 : UInt64).toNat < 2 ^ 62; decide⟩
  | step _ step range ih => exact ⟨step.sound ih.1 range, range⟩
  | restored _ _ ih _ => exact ⟨ih.1.congr rfl, ih.2⟩

end Handheld.Console.Session
