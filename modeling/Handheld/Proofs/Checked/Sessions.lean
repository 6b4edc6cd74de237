import Handheld.Checked.Session
import Handheld.Proofs.Checked.EventTimes
import Handheld.Proofs.Checked.Steps
import Handheld.Proofs.Console.Progress

/-!
# Sessions with checked ranges

A session that checks its ranges comes to what the one without checks comes to, if it does not
stop. Where it stops is either a step of a processor, or the end of a run that was put too far into
the past.

* `advance_of_checked` and `runFor_of_checked` hold of every session;
* `Consistent.advanceChecked_cases` and `runForChecked_cases` say where a console stops whose runs
  end ahead of its clock: at a step of a processor that stops, and nowhere else.
-/

namespace Handheld.Console

open Handheld.Console.System (Punctual)

namespace Session

variable {fuel : ℕ} {target : UInt64} {s : Session} {log : Log}

/-! ## What does not stop -/

/-- Firing events with checks fires those that are fired without. -/
theorem settleWithin_of_checked {system : System} {r : System × Log}
    (h : settleWithinChecked fuel target system log = .ok r) :
    settleWithin fuel target system log = some r := by
  induction fuel generalizing system log with
  | zero =>
    unfold settleWithinChecked at h
    obtain ⟨first, hfirst, hrest⟩ := Checked.bind_eq_ok h
    cases first with
    | none =>
      rw [settleWithin_of_none 0 (EventQueue.popDue_of_checked_none hfirst)]
      exact congrArg some (Except.ok.inj hrest)
    | some first => cases hrest
  | succ fuel ih =>
    unfold settleWithinChecked at h
    obtain ⟨first, hfirst, hrest⟩ := Checked.bind_eq_ok h
    cases first with
    | none =>
      rw [settleWithin_of_none _ (EventQueue.popDue_of_checked_none hfirst)]
      exact congrArg some (Except.ok.inj hrest)
    | some first =>
      rw [settleWithin_of_some fuel (EventQueue.popDue_of_checked hfirst).1]
      exact ih hrest

theorem stepCpu_of_checked {p : Processor} {r : Session × Log}
    (h : s.stepCpuChecked p log = .ok r) : s.stepCpu p log = r := by
  obtain ⟨stepped, hstep, hrest⟩ := Checked.bind_eq_ok h
  cases hrest
  rw [stepCpu, Core.step_of_checked hstep]

theorem rebase_of_checked {s' : Session} (h : s.rebaseChecked = .ok s') : s.rebase = s' := by
  obtain ⟨⟨bias, queue⟩, hlowered, hrest⟩ := Checked.bind_eq_ok h
  rw [rebase, EventQueue.rebase_of_checked hlowered]
  dsimp only at hrest ⊢
  split_ifs at hrest ⊢ <;> exact Except.ok.inj hrest

/-- An advance that does not stop is the one without checks. -/
theorem advance_of_checked {r : Session × Log} (h : s.advanceChecked log = .ok r) :
    s.advance? log = some r := by
  obtain ⟨⟨stepped, log₁⟩, hstep, hrest⟩ := Checked.bind_eq_ok h
  obtain ⟨⟨settled, log₂⟩, hsettle, hrest⟩ := Checked.bind_eq_ok hrest
  obtain ⟨lowered, hlower, hresult⟩ := Checked.bind_eq_ok hrest
  cases hresult
  have hstepped := stepCpu_of_checked hstep
  have hsettled : settle? _ _ _ = _ := settleWithin_of_checked hsettle
  rw [advance_eq_bind, settleTarget_eq, hstepped, hsettled, ← rebase_of_checked hlower]
  rfl

theorem runWithin_of_checked {r : Session × Log} (h : s.runWithinChecked fuel log = .ok r) :
    s.runWithin fuel log = some r := by
  induction fuel generalizing s log with
  | zero =>
    unfold runWithinChecked at h
    unfold runWithin
    split_ifs at h ⊢
    exact congrArg some (Except.ok.inj h)
  | succ fuel ih =>
    unfold runWithinChecked at h
    unfold runWithin
    split_ifs at h ⊢
    · exact congrArg some (Except.ok.inj h)
    · obtain ⟨⟨next, log₁⟩, hadvance, hrest⟩ := Checked.bind_eq_ok h
      rw [advance_of_checked hadvance]
      exact ih hrest

/-- A run that does not stop before its end is the one without checks. -/
theorem runFor_of_checked {cycles : UInt64} {r : Session × Log}
    (h : s.runForChecked cycles log = .ok r) : s.runFor? cycles log = some r :=
  runWithin_of_checked h

/-! ## What stops -/

end Session

/-- The end of a run, if it waits, was not put into the time before the clock's start. -/
def System.Recent (s : System) : Prop :=
  ∀ e ∈ s.queue.events, e.kind = .pause → 0 ≤ e.time.toInt

namespace System

variable {s : System} {target : UInt64} {event : Fired Event} {queue : EventQueue Event}

theorem Pausing.recent {stop : ℤ} (h : s.Pausing stop) (hsound : s.Sound) (hstop : 0 ≤ stop) :
    s.Recent := by
  intro e he hkind
  rw [h.time_eq hsound he hkind]
  exact hstop

/-- No device puts the end of a run anywhere. -/
theorem Recent.follow {t : System} (h : s.Recent) (hsound : s.Sound)
    (hqueue : Follows s.queue t.queue) : t.Recent := by
  rcases hqueue with hqueue | ⟨event, -, hevent, delay, -, -, hqueue⟩
  · unfold Recent
    rw [hqueue]
    exact h
  · intro e he hkind
    rw [hqueue, EventQueue.mem_schedule hsound.coherent (hsound.room event)] at he
    rcases he with rfl | ⟨he, -⟩
    · exact absurd hkind hevent
    · exact h e he hkind

theorem recent_monitor : Monitor fun s _ => s.Sound ∧ s.Recent where
  memory _ h := ⟨h.1.congr rfl, h.2⟩
  control _ h := ⟨h.1.congr rfl, h.2⟩
  interrupts _ h := ⟨h.1.congr rfl, h.2⟩
  wrote {s _} p lanes log r h :=
    ⟨h.1.writeIo p lanes log r, h.2.follow h.1 (writeIo_follows s p lanes log r)⟩

/-- What is neither late nor from before the clock's start does not stop the queue. -/
theorem Recent.popDueChecked_eq (h : s.Recent) (hpunctual : Punctual 0 s)
    (hrange : target.toNat < clockBound) (hnow : s.queue.now.toNat ≤ target.toNat) :
    s.queue.popDueChecked target = .ok (s.queue.popDue target) := by
  have hclock : clockBound = 2 ^ 62 + 2 ^ 32 := rfl
  rcases s.queue.popDueChecked_cases target with
    ⟨hpop, hchecked⟩ | ⟨e, rest, he, -, hpop, hchecked⟩
  · rw [hpop, hchecked]
  · have hmem := List.mem_of_head? he
    have hpositive : 0 ≤ e.time.toInt := by
      by_cases hkind : e.kind = .pause
      · exact h e hmem hkind
      · have hahead := hpunctual.ahead e hmem hkind
        omega
    have hmost := e.time.toInt_lt
    obtain ⟨-, hle⟩ := EventQueue.toNat_now_popDue hpunctual.sound.coherent hpop
    have hrest : rest.now.toInt64.toInt = rest.now.toNat := toInt_toInt64 (by omega)
    have hlate : Checked.subSignedLong rest.now.toInt64 e.time =
        .ok (rest.now.toInt64 - e.time) := Checked.subSignedLong_eq (by omega) (by omega)
    rw [hpop, hchecked, hlate]
    rfl

/-- Firing an event leaves the end of a run where it is, or takes it away. -/
theorem Recent.fire (h : s.Recent) (hpunctual : Punctual 0 s) (hrange : target.toNat < clockBound)
    (hnow : s.queue.now.toNat ≤ target.toNat)
    (hpop : s.queue.popDue target = some (event, queue)) (log : Log) :
    (({ s with queue } : System).dispatch event log).1.Recent := by
  obtain ⟨-, -, hfollows, -⟩ := hpunctual.fire hrange hnow hpop log
  obtain ⟨e, rest, hevents, -, -, hqueue⟩ :=
    (EventQueue.popDue_eq_some_iff hpunctual.sound.coherent target event queue).mp hpop
  have hpopped : ({ s with queue } : System).Recent := by
    intro e' he'
    change e' ∈ queue.events at he'
    rw [hqueue] at he'
    exact h e' (by rw [hevents]; exact List.mem_cons_of_mem e he')
  exact hpopped.follow (hpunctual.sound.popDue hpop) hfollows

end System

namespace Session

variable {fuel : ℕ} {target : UInt64} {s s' : Session} {log log' : Log}

/-- The events that are due are all fired with checks, too. -/
theorem settleWithinChecked_eq {system : System} {r : System × Log} (h : Punctual 0 system)
    (hrecent : system.Recent) (hrange : target.toNat < clockBound)
    (hnow : system.queue.now.toNat ≤ target.toNat)
    (returned : settleWithin fuel target system log = some r) :
    settleWithinChecked fuel target system log = .ok r := by
  induction fuel generalizing system log with
  | zero =>
    unfold settleWithinChecked
    rw [hrecent.popDueChecked_eq h hrange hnow, Checked.ok_bind]
    unfold settleWithin at returned
    cases hpop : system.queue.popDue target with
    | none =>
      rw [hpop] at returned
      exact congrArg Except.ok (Option.some.inj returned)
    | some next =>
      rw [hpop] at returned
      cases returned
  | succ fuel ih =>
    unfold settleWithinChecked
    rw [hrecent.popDueChecked_eq h hrange hnow, Checked.ok_bind]
    cases hpop : system.queue.popDue target with
    | none =>
      rw [settleWithin_of_none _ hpop] at returned
      exact congrArg Except.ok (Option.some.inj returned)
    | some next =>
      rw [settleWithin_of_some fuel hpop] at returned
      obtain ⟨hpunctual, hle, -⟩ := h.fire hrange hnow hpop log
      exact ih hpunctual (hrecent.fire h hrange hnow hpop log) hle returned

/-- A processor's step stops the session, or is the one without checks. -/
theorem stepCpuChecked_cases (p : Processor) (s : Session) (log : Log) :
    s.stepCpuChecked p log = .ok (s.stepCpu p log) ∨
      ∃ fault, (core p).stepChecked (s.board p log) = .error fault ∧
        s.stepCpuChecked p log = .error fault := by
  unfold stepCpuChecked board
  cases hstep : (core p).stepChecked { cpu := s.cpus.get p, system := s.system, log } with
  | ok =>
    rw [stepCpu, Core.step_of_checked hstep]
    exact .inl rfl
  | error fault => exact .inr ⟨fault, rfl, rfl⟩

theorem advanceChecked_eq_bind (s : Session) (log : Log) :
    s.advanceChecked log =
      s.stepCpuChecked s.next log >>= fun stepped =>
        settleChecked (min stepped.1.clocks.arm7 stepped.1.clocks.arm9) stepped.1.system stepped.2
          >>= fun settled =>
            rebaseChecked { stepped.1 with system := settled.1 } >>= fun lowered =>
              pure (lowered, settled.2) := rfl

/-- Lowering the clocks stops no console whose events lie ahead. -/
theorem rebaseChecked_eq (h : ∀ e ∈ s.system.queue.events, 0 ≤ e.time.toInt) :
    s.rebaseChecked = .ok s.rebase := by
  have hbias : EventQueue.rebaseAt.toNat = 0xF0000000 := rfl
  have hlowered : s.system.queue.rebaseChecked = .ok s.system.queue.rebase :=
    EventQueue.rebaseChecked_of fun _ e he => by
      have hpositive := h e he
      omega
  rw [rebaseChecked, hlowered, rebase]
  dsimp only [Checked.ok_bind]
  split_ifs <;> rfl

/-- An advance stops only if the step of the processor does. -/
theorem Consistent.advanceChecked_cases (h : s.Consistent) (hnow : s.now.toNat < 2 ^ 62)
    (hrange : (s.settleTarget log).toNat < clockBound) (hrecent : s.system.Recent)
    (returned : s.advance? log = some (s', log')) :
    s.advanceChecked log = .ok (s', log') ∨
      ∃ fault, (core s.next).stepChecked (s.board s.next log) = .error fault ∧
        s.advanceChecked log = .error fault := by
  rw [advanceChecked_eq_bind]
  rcases stepCpuChecked_cases s.next s log with hstep | ⟨fault, hfault, hstep⟩
  · left
    obtain ⟨hpunctual, hle⟩ := h.stepped hnow log
    have hstepped := (System.recent_monitor.instruction (t := []) s.next
      ⟨h.punctual.sound, hrecent⟩ log).2
    rw [advance_eq_bind] at returned
    obtain ⟨⟨settled, log''⟩, hsettle, hs'⟩ := Option.bind_eq_some_iff.mp returned
    obtain ⟨rfl, rfl⟩ := Prod.mk.inj (Option.some.inj hs')
    obtain ⟨-, -, hlater⟩ := h.fired hnow hrange hsettle
    have hchecked : settleChecked (s.settleTarget log) _ _ = .ok (settled, log'') :=
      settleWithinChecked_eq hpunctual hstepped hrange hle hsettle
    have hlowered : rebaseChecked { (s.stepCpu s.next log).1 with system := settled } = _ :=
      rebaseChecked_eq fun e he => by
        have hlt := hlater e he
        omega
    rw [hstep, Checked.ok_bind, ← settleTarget_eq, hchecked, Checked.ok_bind, hlowered]
    rfl
  · rw [hstep]
    exact .inr ⟨fault, hfault, rfl⟩

/-- A run stops only if a step of a processor does on the way. -/
theorem runWithinChecked_cases (h : Reachable s)
    (inRange : ∀ t a log', Passes s log t a log' → a.InRange) (hrecent : s.system.Recent)
    (returned : s.runWithin fuel log = some (s', log')) :
    s.runWithinChecked fuel log = .ok (s', log') ∨
      ∃ t a log₁ fault, Passes s log t a log₁ ∧ a.system.running = true ∧
        (core a.next).stepChecked (a.board a.next log₁) = .error fault ∧
        s.runWithinChecked fuel log = .error fault := by
  induction fuel generalizing s log with
  | zero =>
    unfold runWithin at returned
    unfold runWithinChecked
    split_ifs at returned ⊢
    exact .inl (congrArg Except.ok (Option.some.inj returned))
  | succ fuel ih =>
    unfold runWithin at returned
    unfold runWithinChecked
    split_ifs at returned ⊢ with hstopped
    · exact .inl (congrArg Except.ok (Option.some.inj returned))
    have hrunning : s.system.running = true := by simpa using hstopped
    have hstart := inRange _ _ _ .start
    obtain ⟨s₁, log₁, hadvance⟩ := h.advance_returns hstart log
    rw [hadvance] at returned
    rcases h.consistent.advanceChecked_cases h.sound.2 (settleTarget_lt hstart log) hrecent
      hadvance with hchecked | ⟨fault, hfault, hchecked⟩
    · -- What waits after an advance lies ahead of the clock.
      have hrecent₁ : s₁.system.Recent := fun e he _ => by
        have hahead := (h.advanced hstart hadvance).ahead e he
        omega
      rw [hchecked]
      rcases ih (h.advance hstart hadvance)
        (fun t a log' hpasses => inRange _ _ _ (hpasses.head hrunning hadvance)) hrecent₁ returned
        with hrest | ⟨t, a, log₂, fault, hpasses, hruns, hfault, hrest⟩
      · exact .inl hrest
      · exact .inr ⟨_, a, log₂, fault, hpasses.head hrunning hadvance, hruns, hfault, hrest⟩
    · rw [hchecked]
      exact .inr ⟨_, s, log, fault, .start, hrunning, hfault, rfl⟩

/-- A run for some cycles stops only if a step of a processor does on the way. -/
theorem runForChecked_cases (reachable : Reachable s) {cycles : UInt64}
    (hcycles : cycles.toNat < 2 ^ 62)
    (inRange : ∀ t a log', Passes (s.prepare cycles log) log t a log' → a.InRange)
    (returned : s.runFor? cycles log = some (s', log')) :
    s.runForChecked cycles log = .ok (s', log') ∨
      ∃ t a log₁ fault, Passes (s.prepare cycles log) log t a log₁ ∧ a.system.running = true ∧
        (core a.next).stepChecked (a.board a.next log₁) = .error fault ∧
        s.runForChecked cycles log = .error fault := by
  have hnow : (s.prepare cycles log).now = s.now := EventQueue.now_schedule _ _ _
  have hprepared : Reachable (s.prepare cycles log) :=
    reachable.step (.prepare s cycles log) (by rw [hnow]; exact reachable.sound.2)
  have hrecent : (s.prepare cycles log).system.Recent :=
    (pausing_prepare reachable hcycles log).recent hprepared.sound.1 (by omega)
  -- The queue has room for the end of the run, so nothing is reported.
  have hquiet : (s.system.schedule .pause cycles.toInt64 log).2 = log := by
    show (if s.system.queue.refuses Event.pause then _ else log) = log
    rw [reachable.sound.1.room, if_neg Bool.false_ne_true]
  have hplain : s.runFor? cycles log =
      (s.prepare cycles log).runWithin (s.runBound cycles) log := by
    rw [← congrArg ((s.prepare cycles log).runWithin (s.runBound cycles)) hquiet]
    rfl
  have hchecked : s.runForChecked cycles log =
      (s.prepare cycles log).runWithinChecked (s.runBound cycles) log := by
    rw [← congrArg ((s.prepare cycles log).runWithinChecked (s.runBound cycles)) hquiet]
    rfl
  rw [hplain] at returned
  rw [hchecked]
  exact runWithinChecked_cases hprepared inRange hrecent returned

end Session

end Handheld.Console
