import Handheld.Proofs.Console.Courses

/-!
# Rewriting the control register of a running timer

A write to the control register of a timer that counts time brings its counter up to date and
starts it anew from there. The cycles since the last step of the counter are forgotten, so that all
that the timer does comes later by as many, even if the write leaves its settings as they are. Main
statement: `Session.rewriting_delays`.
-/

namespace Handheld.Console

open Happening (loweredBy)
open Handheld.Console.System (Punctual Ticks)

namespace System

variable {s : System} {p : Processor} {i : Fin 4}

/-- Cycles since the last step of a timer's counter. -/
def phase (s : System) (p : Processor) (i : Fin 4) : ℕ :=
  s.elapsed p i % ((s.timers.get p).control.get i).prescaler.toNat

/-- Two values of a control register do not differ in what makes a timer count. -/
structure SameSettings (old new : TimerControl) : Prop where
  prescaler : new.prescaler = old.prescaler
  countsUp : new.countsUp = old.countsUp
  isEnabled : new.isEnabled = old.isEnabled

/-- A timer that goes on from the steps that its counter has made has the rest of its way ahead, and
what it had begun of the next step. -/
theorem rest_of_way {prescaler counter elapsed : ℕ}
    (h : elapsed < prescaler * (0x10000 - counter)) :
    prescaler * (0x10000 - (counter + elapsed / prescaler)) + elapsed =
      prescaler * (0x10000 - counter) + elapsed % prescaler := by
  have hsplit := Nat.div_add_mod elapsed prescaler
  have hsteps : elapsed / prescaler < 0x10000 - counter := Nat.div_lt_of_lt_mul h
  generalize elapsed / prescaler = steps at hsplit hsteps ⊢
  have hrest : 0x10000 - counter = 0x10000 - (counter + steps) + steps := by omega
  rw [hrest, Nat.mul_add]
  omega

section
variable (lanes : Lanes) (log : Log) {after : System}
  (hafter : after = (s.writeTimerControl p i lanes log).1)
  (hsettings : SameSettings ((s.timers.get p).control.get i) ((after.timers.get p).control.get i))
include hafter hsettings

/-- A timer whose control register is rewritten starts now from what its counter reads. -/
theorem registers_rewritten (hcounts : (s.timers.get p).countsTime i = true) :
    (after.timers.get p).countsTime i = true ∧
      (after.timers.get p).startedAt.get i = s.queue.now ∧
      (after.timers.get p).counters.get i = (s.timers.get p).read i s.queue.now ∧
      (after.timers.get p).reload = (s.timers.get p).reload := by
  let t := s.timers.get p
  let control : TimerControl := ⟨lanes.merge16 (t.control.get i).raw⟩
  have hwritten := t.writeControl_eq i lanes s.queue.now
  have htimers : after.timers.get p = (t.writeControl i lanes s.queue.now).1 := by
    rw [hafter, queue_writeTimerControl]
    exact PerProcessor.get_set_self _ _ _
  have hcontrol : (after.timers.get p).control.get i = control := by
    rw [htimers, t.control_writeControl]
  rw [hcontrol] at hsettings
  have hold : (t.control.get i).countsTime i = true := hcounts
  have hon : control.countsTime i = true := by
    unfold TimerControl.countsTime at hold ⊢
    rwa [hsettings.isEnabled, hsettings.countsUp]
  have hwasOn : (t.control.get i).isEnabled = true := ((Bool.and_eq_true _ _).mp hold).1
  have hcounter : t.counterAfter i control s.queue.now = t.read i s.queue.now := by
    unfold Timers.counterAfter
    rw [hwasOn]
    rfl
  dsimp only at hwritten
  rw [if_pos hon, if_pos hon, hcounter] at hwritten
  refine ⟨?_, ?_, ?_, ?_⟩
  · unfold Timers.countsTime
    rwa [Timers.getElem_eq_get, hcontrol]
  · rw [htimers, hwritten]
    exact Timers.get_set_self _ _ _
  · rw [htimers, hwritten]
    exact Timers.get_set_self _ _ _
  · rw [htimers, hwritten]

/-- The overflow of a timer whose control register is rewritten is delayed by its phase. -/
theorem course_rewritten (hcounts : (s.timers.get p).countsTime i = true)
    (hpunctual : Punctual 1 s) (hticks : Ticks p i s) :
    (after.timers.get p).countsTime i = true ∧
      (after.queue.now.toNat : ℤ) ≤ after.overflowTime p i ∧
      after.course p i = (s.course p i).delayed (s.phase p i) := by
  let t := s.timers.get p
  obtain ⟨hon, hstarted, hcounter, hreload⟩ :=
    registers_rewritten lanes log hafter hsettings hcounts
  have hnow : after.queue.now = s.queue.now := by
    rw [hafter]
    exact s.now_writeIo p lanes log (.timerControl i)
  -- The overflow lies ahead, so the counter is that of its start and the steps since then.
  have hahead := hticks.ahead hcounts hpunctual
  have hdef : s.overflowTime p i = s.queue.now.toNat - s.elapsed p i +
    (t.control.get i).period (t.counters.get i) := rfl
  have hless : s.elapsed p i < (t.control.get i).period (t.counters.get i) := by omega
  have hread : (t.read i s.queue.now).toNat = (t.counters.get i).toNat +
      s.elapsed p i / (t.control.get i).prescaler.toNat := Timers.toNat_read hcounts rfl hless
  have hway : (((after.timers.get p).control.get i).period (t.read i s.queue.now) : ℤ) +
      s.elapsed p i = (t.control.get i).period (t.counters.get i) + s.phase p i := by
    have hrest := rest_of_way hless
    unfold TimerControl.period phase
    rw [hsettings.prescaler, hread]
    exact_mod_cast hrest
  have hlater : after.overflowTime p i = s.overflowTime p i + s.phase p i := by
    unfold overflowTime elapsed
    rw [hnow, hstarted, hcounter, UInt64.sub_self]
    show (s.queue.now.toNat : ℤ) - ((0 : ℕ) : ℤ) +
      ((after.timers.get p).control.get i).period (t.read i s.queue.now) =
        s.overflowTime p i + s.phase p i
    omega
  refine ⟨hon, by rw [hnow, hlater]; omega, ?_⟩
  unfold course Course.delayed
  rw [hsettings.prescaler, hreload, hlater, Int.toNat_add (by omega) (by omega)]
  rfl

end

end System

namespace Session

/-- **Rewriting the control register of a running timer delays it.** In the past of any session that
a console can come to, let the control register of a timer that counts time be written such that its
settings stay, and let the timer be left alone afterwards. Then the timer has done all that it would
have done without the write, but later by the cycles since the last step of its counter. So the
write disturbs it, unless a step of the counter falls on it. -/
theorem rewriting_delays {s : Session} {t earlier later : List Happening} (past : s.Past t)
    {p : Processor} {i : Fin 4} {before after : System}
    (record : t = earlier ++ .wrote p (.timerControl i) before after :: later)
    (counts : (before.timers.get p).countsTime i = true)
    (settings : System.SameSettings ((before.timers.get p).control.get i)
      ((after.timers.get p).control.get i))
    (alone : ∀ h ∈ later, ¬ h.touches p i) :
    let course := before.course p i
    (∀ {s₀ a : Session} {u : List Happening}, s₀.Reachable → s₀.system = before → s₀.Run u a →
      (∀ h ∈ u, ¬ h.touches p i) → course.Followed p i a u) ∧
    (course.delayed (before.phase p i)).Followed p i s later ∧
    ((∀ time, (course.delayed (before.phase p i)).counter time = course.counter time ∧
      (course.delayed (before.phase p i)).overflowsUpTo time = course.overflowsUpTo time) ↔
      before.phase p i = 0) := by
  intro course
  have hperiod : 0 < course.period := by
    have hbound := (((before.timers.get p).control.get i).period_bounds
      ((before.timers.get p).reload.get i)).1
    exact Nat.lt_of_lt_of_le (by decide) hbound
  refine ⟨fun reachable heq run halone => ?_, ?_, Course.delayed_iff hperiod _⟩
  · subst heq
    exact follows reachable run counts halone
  · let delayed := course.delayed (before.phase p i)
    have hsince := Chronicle.since (delayed.kept_chronicle p i) (System.ticks_chronicle p i)
      (· = .wrote p (.timerControl i) before after)
      (fun {s t} hpunctual hnow hticks q lanes log r hstart => ?_) (fun _ _ => nofun)
      (fun _ => nofun)
    · obtain ⟨-, hkept⟩ := hsince.past (fun config => ⟨System.ticks_initial p i config,
        fun earlier h later heq => by simp at heq⟩) past
      obtain ⟨hticks, hkept⟩ := hkept earlier _ later record rfl
      obtain ⟨count, hkept⟩ := hkept alone
      exact hkept.followed hticks past.reachable.consistent.punctual
    · obtain ⟨rfl, rfl, rfl, hafter⟩ := Happening.wrote.inj hstart
      obtain ⟨hon, hahead, hcourse⟩ :=
        System.course_rewritten lanes log hafter.symm settings counts hpunctual hticks
      refine ⟨hticks.writeIo hpunctual.sound hnow _ lanes log _, fun _ => ⟨0, ?_⟩⟩
      have hstart := Course.kept_start hon hahead
      rw [hcourse] at hstart
      rwa [hafter]

/-- A sleeping console whose first timer takes 128 cycles for a step. -/
def stepping : Session := (asleep.write .arm9 .half 0x4000102 0x81 {}).1

/-- The same after a hundred cycles. -/
def midStep : Session := (stepping.prepare 100 {}).advanced.advanced

/-- A byte without any meaning is then written to the control register of the timer. -/
def rewritten : Session := (midStep.write .arm9 .byte 0x4000103 0 {}).1

/-- The same another hundred cycles later. -/
def rewrittenLater : Session := (rewritten.prepare 100 {}).advanced.advanced

/-- Without the write the counter would have moved on. -/
theorem rewriting_delays_midStep :
    let course := midStep.system.course .arm9 0
    (∃ t later, rewrittenLater.Past (t ++ .wrote .arm9 (.timerControl 0) midStep.system
        rewritten.system :: later) ∧
      (course.delayed 100).Followed .arm9 0 rewrittenLater later) ∧
    rewrittenLater.now = 200 ∧
    ((rewrittenLater.system.timers.get .arm9).read 0 200).toNat = 0 ∧ course.counter 200 = 1 := by
  intro course
  have hasleep : asleep.Past [] :=
    ((Past.new {}).step (.replaceCpu _ .arm7 { isHalted := true }) (by decide)).step
      (.replaceCpu _ .arm9 { isHalted := true }) (by decide)
  have hstepping : (stepping.prepare 100 {}).Past _ :=
    (hasleep.step (.write asleep .arm9 .half 0x4000102 0x81 {}) (by decide)).step
      (.prepare _ 100 {}) (by decide)
  obtain ⟨log₁, hfirst⟩ : ∃ log, (stepping.prepare 100 {}).advance? {} =
    some ((stepping.prepare 100 {}).advanced, log) := ⟨_, rfl⟩
  obtain ⟨log₂, hsecond⟩ : ∃ log, (stepping.prepare 100 {}).advanced.advance? {} =
    some (midStep, log) := ⟨_, rfl⟩
  obtain ⟨t, hmidStep⟩ : ∃ t, midStep.Past t :=
    ⟨_, (hstepping.step (.advance hfirst) (by decide)).step (.advance hsecond) (by decide)⟩
  have hrewritten : rewritten.Past
      (t ++ [.wrote .arm9 (.timerControl 0) midStep.system rewritten.system]) :=
    hmidStep.step (.write midStep .arm9 .byte 0x4000103 0 {}) (by decide)
  obtain ⟨log₃, hthird⟩ : ∃ log, (rewritten.prepare 100 {}).advance? {} =
    some ((rewritten.prepare 100 {}).advanced, log) := ⟨_, rfl⟩
  obtain ⟨log₄, hfourth⟩ : ∃ log, (rewritten.prepare 100 {}).advanced.advance? {} =
    some (rewrittenLater, log) := ⟨_, rfl⟩
  let later : List Happening := [.lowered 0] ++ [.fired ⟨.pause, 0⟩ 200, .lowered 0]
  have hlast : rewrittenLater.Past
      (t ++ .wrote .arm9 (.timerControl 0) midStep.system rewritten.system :: later) := by
    have hsteps := ((hrewritten.step (.prepare _ 100 {}) (by decide)).step (.advance hthird)
      (by decide)).step (.advance hfourth) (by decide)
    rw [List.append_nil, List.append_assoc, List.append_assoc] at hsteps
    exact hsteps
  have hdelays := rewriting_delays hlast rfl (by decide) ⟨rfl, rfl, rfl⟩
    (by simp [later, Happening.touches])
  exact ⟨⟨t, later, hlast, hdelays.2.1⟩, rfl, rfl, by decide +kernel⟩

end Session
end Handheld.Console
