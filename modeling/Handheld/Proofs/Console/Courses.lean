import Handheld.Proofs.Console.Ticking

/-!
# The course of a timer

A timer that counts time and is left alone runs over at fixed times, whatever else the console
does, and the time left to its next overflow determines its counter. `Course` is what it does from
some time on; `Session.follows` says that it does.
-/

namespace Handheld.Console

open Happening (loweredBy overflows)
open Handheld.Console.System (Punctual overflowEvent Ticks)

/-! ## Courses -/

/-- What a timer that counts time does from some time on, as long as it is left alone. -/
structure Course where
  /-- When it runs over first. -/
  first : ℕ
  /-- Cycles in one step of the counter. -/
  prescaler : ℕ
  /-- Where the counter starts again after an overflow. -/
  reload : ℕ

namespace Course

variable (c : Course)

/-- Cycles between two overflows. -/
def period : ℕ := c.prescaler * (0x10000 - c.reload)

/-- How many overflows there are up to a time. -/
def count (time : ℕ) : ℕ := if time < c.first then 0 else (time - c.first) / c.period + 1

/-- The first overflow after a time. -/
def next (time : ℕ) : ℕ := c.first + c.count time * c.period

/-- The counter at a time: as many steps short of its end as begin before the next overflow. -/
def counter (time : ℕ) : ℕ :=
  0x10000 - (c.next time - time + (c.prescaler - 1)) / c.prescaler

/-- The overflows up to a time, each with its time and by how much it is late. -/
def overflowsUpTo (time : ℕ) : List (ℕ × Int64) :=
  (List.range (c.count time)).map fun k => (c.first + k * c.period, 0)

/-- The same course some cycles later. -/
def delayed (amount : ℕ) : Course := { c with first := c.first + amount }

variable {c : Course}

/-- The number of overflows is known by the last one and the next one. -/
theorem count_eq {time count : ℕ} (hperiod : 0 < c.period)
    (hlast : count ≠ 0 → c.first + count * c.period ≤ time + c.period)
    (hnext : time < c.first + count * c.period) : c.count time = count := by
  unfold Course.count
  cases count with
  | zero => exact if_pos (by omega)
  | succ k =>
    have hlow := hlast (Nat.succ_ne_zero k)
    rw [Nat.succ_mul] at hlow hnext
    rw [if_neg (by omega)]
    exact congrArg Nat.succ (Nat.div_eq_of_lt_le (by omega) (by rw [Nat.succ_mul]; omega))

/-- A delayed course is another one, unless nothing is added. -/
theorem delayed_iff (hperiod : 0 < c.period) (amount : ℕ) :
    (∀ time, (c.delayed amount).counter time = c.counter time ∧
      (c.delayed amount).overflowsUpTo time = c.overflowsUpTo time) ↔ amount = 0 := by
  constructor
  · intro h
    have hlength := congrArg List.length (h c.first).2
    unfold overflowsUpTo at hlength
    rw [List.length_map, List.length_map, List.length_range, List.length_range] at hlength
    by_contra hamount
    have hnone : (c.delayed amount).count c.first = 0 :=
      if_pos (by show c.first < c.first + amount; omega)
    have hone : c.count c.first = 1 :=
      count_eq hperiod (fun _ => by omega) (by omega)
    omega
  · rintro rfl _
    exact ⟨rfl, rfl⟩

/-- The counter from its value at the start and the cycles since then. -/
theorem counter_of_elapsed {prescaler counter elapsed left : ℕ} (hprescaler : 0 < prescaler)
    (hcounter : counter < 0x10000) (hleft : left ≠ 0)
    (hsum : elapsed + left = prescaler * (0x10000 - counter)) :
    counter + elapsed / prescaler = 0x10000 - (left + (prescaler - 1)) / prescaler := by
  -- The steps that have begun and those that are left make up the way.
  have hsteps : elapsed / prescaler + (left + (prescaler - 1)) / prescaler = 0x10000 - counter := by
    have hsplit := Nat.div_add_mod elapsed prescaler
    have hmod := Nat.mod_lt elapsed hprescaler
    generalize elapsed / prescaler = q at *
    generalize elapsed % prescaler = r at *
    have hle : q ≤ 0x10000 - counter := by
      by_contra hlt
      have hmul := Nat.mul_le_mul_left prescaler (Nat.le_of_lt (Nat.lt_of_not_le hlt))
      omega
    obtain ⟨n, hn⟩ := Nat.exists_eq_add_of_le hle
    rw [hn, Nat.mul_add] at hsum
    have hdiv : (left + (prescaler - 1)) / prescaler = n :=
      Nat.div_eq_of_lt_le (by rw [Nat.mul_comm]; omega) (by rw [Nat.succ_mul, Nat.mul_comm]; omega)
    rw [hdiv, hn]
  generalize elapsed / prescaler = begun at hsteps ⊢
  generalize (left + (prescaler - 1)) / prescaler = ahead at hsteps ⊢
  omega

end Course

/-! ## Keeping to a course -/

/-- The course of a timer that counts time, from the system's state on. -/
def System.course (s : System) (p : Processor) (i : Fin 4) : Course where
  first := (s.overflowTime p i).toNat
  prescaler := ((s.timers.get p).control.get i).prescaler.toNat
  reload := ((s.timers.get p).reload.get i).toNat

/-- Taking an event that waits for its time moves the clock on to it. -/
theorem System.Punctual.now_popDue {s : System} (h : Punctual 0 s) {target : UInt64}
    {event : Fired Event} {queue : EventQueue Event}
    (hpop : s.queue.popDue target = some (event, queue)) {e : Pending Event}
    (he : e ∈ s.queue.events) (hkind : e.kind = event.kind) (hpause : event.kind ≠ .pause) :
    (queue.now.toNat : ℤ) = e.time.toInt := by
  have hahead := h.ahead e he (by rwa [hkind])
  obtain ⟨first, rest, hevents, -, rfl, rfl⟩ :=
    (EventQueue.popDue_eq_some_iff h.sound.coherent target event queue).mp hpop
  have hdistinct := h.sound.coherent.distinct
  rw [hevents] at he hdistinct
  obtain rfl : e = first := by
    rcases List.mem_cons.mp he with rfl | hmem
    · rfl
    · exact absurd (List.mem_map.mpr ⟨e, hmem, hkind⟩) (List.nodup_cons.mp hdistinct).1
  have hclamp := EventQueue.toNat_clampTime e.time
  have hmax := EventQueue.toNat_max s.queue.now (EventQueue.clampTime e.time)
  show ((max s.queue.now (EventQueue.clampTime e.time)).toNat : ℤ) = e.time.toInt
  omega

namespace Course

/-- The timer has run over `count` times on its course, `u` being the record since its beginning. -/
structure Kept (c : Course) (p : Processor) (i : Fin 4) (s : System) (u : List Happening)
    (count : ℕ) : Prop where
  counts : (s.timers.get p).countsTime i = true
  prescaler : ((s.timers.get p).control.get i).prescaler.toNat = c.prescaler
  reload : ((s.timers.get p).reload.get i).toNat = c.reload
  next : s.overflowTime p i + loweredBy u = c.first + count * c.period
  last : count ≠ 0 → c.first + count * c.period ≤ s.queue.now.toNat + loweredBy u + c.period
  handled : overflows p i 0 u = (List.range count).map fun k => (c.first + k * c.period, 0)

variable {c : Course} {p : Processor} {i : Fin 4} {s s' : System} {u : List Happening} {count : ℕ}

/-- The cycles between two overflows are those of the timer's registers. -/
theorem Kept.period_eq (h : c.Kept p i s u count) :
    ((s.timers.get p).control.get i).period ((s.timers.get p).reload.get i) = c.period := by
  unfold TimerControl.period Course.period
  rw [h.prescaler, h.reload]

theorem kept_start (hcounts : (s.timers.get p).countsTime i = true)
    (hahead : (s.queue.now.toNat : ℤ) ≤ s.overflowTime p i) :
    (s.course p i).Kept p i s [] 0 := by
  have hfirst : ((s.course p i).first : ℤ) = s.overflowTime p i :=
    Int.toNat_of_nonneg (by omega)
  refine ⟨hcounts, rfl, rfl, ?_, fun h => absurd rfl h, rfl⟩
  rw [hfirst, Nat.cast_zero, zero_mul]
  rfl

/-- What leaves the timer's registers and its next overflow alone, and is no overflow. -/
theorem Kept.frame (h : c.Kept p i s u count)
    (hsame : Timers.SameAt i (s.timers.get p) (s'.timers.get p))
    (htime : s'.overflowTime p i = s.overflowTime p i)
    (hnow : s.queue.now.toNat ≤ s'.queue.now.toNat) {v : List Happening}
    (hlowered : loweredBy v = 0) (hnone : overflows p i (loweredBy u) v = []) :
    c.Kept p i s' (u ++ v) count := by
  have hsum : loweredBy (u ++ v) = loweredBy u := by
    rw [Happening.loweredBy_append, hlowered, Nat.add_zero]
  refine ⟨?_, ?_, ?_, ?_, fun hcount => ?_, ?_⟩
  · rw [System.countsTime_congr hsame.control]
    exact h.counts
  · rw [hsame.control]
    exact h.prescaler
  · rw [hsame.reload]
    exact h.reload
  · rw [htime, hsum]
    exact h.next
  · have hlast := h.last hcount
    rw [hsum]
    omega
  · rw [Happening.overflows_append, Nat.zero_add, hnone, List.append_nil]
    exact h.handled

/-- The same when nothing is recorded. -/
theorem Kept.silent (h : c.Kept p i s u count)
    (hsame : Timers.SameAt i (s.timers.get p) (s'.timers.get p))
    (htime : s'.overflowTime p i = s.overflowTime p i)
    (hnow : s.queue.now.toNat ≤ s'.queue.now.toNat) : c.Kept p i s' u count := by
  have hframe := h.frame (v := []) hsame htime hnow rfl rfl
  rwa [List.append_nil] at hframe

/-- An overflow at its time is followed by the next one a period later. -/
theorem Kept.overflow (h : c.Kept p i s u count) (hdue : (s.queue.now.toNat : ℤ) =
    s.overflowTime p i) (log : Log) :
    c.Kept p i (s.dispatch ⟨overflowEvent p i, 0⟩ log).1
      (u ++ [.fired ⟨overflowEvent p i, 0⟩ s.queue.now]) (count + 1) := by
  obtain ⟨hreload, hcontrol, hcounter, hstarted, -⟩ := FreeRun.dispatch_overflow h.counts log
  have hnow := s.now_dispatch ⟨overflowEvent p i, 0⟩ log
  have hnext := h.next
  have hsum : loweredBy (u ++ [.fired ⟨overflowEvent p i, 0⟩ s.queue.now]) = loweredBy u := by
    rw [Happening.loweredBy_append]
    rfl
  refine ⟨?_, ?_, ?_, ?_, fun _ => ?_, ?_⟩
  · rw [System.countsTime_congr hcontrol]
    exact h.counts
  · rw [hcontrol]
    exact h.prescaler
  · rw [hreload]
    exact h.reload
  · unfold System.overflowTime System.elapsed
    rw [hsum, hcontrol, hcounter, hstarted, hnow, UInt64.sub_self, h.period_eq]
    show (s.queue.now.toNat : ℤ) - ((0 : ℕ) : ℤ) + _ + _ = _
    rw [Nat.cast_succ, add_mul, one_mul]
    omega
  · rw [hsum, hnow, Nat.succ_mul]
    omega
  · have htime : s.queue.now.toNat + (0 + loweredBy u) = c.first + count * c.period := by omega
    have hself : overflows p i (0 + loweredBy u)
        [.fired ⟨overflowEvent p i, 0⟩ s.queue.now] =
          [(s.queue.now.toNat + (0 + loweredBy u), 0)] := if_pos rfl
    rw [Happening.overflows_append, h.handled, hself, htime, List.range_succ, List.map_append]
    rfl

/-- Firing the first event that is due moves the clock on to it. -/
theorem Kept.fired (h : c.Kept p i s u count) (hticks : Ticks p i s) (hpunctual : Punctual 0 s)
    {target : UInt64} (hrange : target.toNat < clockBound)
    (hnow : s.queue.now.toNat ≤ target.toNat) {event : Fired Event} {queue : EventQueue Event}
    (hpop : s.queue.popDue target = some (event, queue)) (log : Log) :
    ∃ count', c.Kept p i (({ s with queue } : System).dispatch event log).1
      (u ++ [.fired event queue.now]) count' := by
  obtain ⟨hpopped, hle, hlate, -⟩ := hpunctual.popDue hrange hnow hpop
  obtain ⟨hforward, -⟩ := EventQueue.toNat_now_popDue hpunctual.sound.coherent hpop
  have hahead := hticks.ahead h.counts hpunctual
  have hsame : System.overflowTime { s with queue } p i = s.overflowTime p i :=
    System.overflowTime_moved rfl hforward (by show queue.now.toNat < _; omega) (by omega)
  have hmoved : c.Kept p i { s with queue } u count := h.silent (.refl _ _) hsame hforward
  by_cases hevent : event.kind = overflowEvent p i
  · obtain ⟨kind, lateBy⟩ := event
    obtain rfl : kind = overflowEvent p i := hevent
    obtain rfl : lateBy = 0 := hlate nofun
    obtain ⟨e, he, hkind, htime⟩ := hticks h.counts
    have hdue := hpunctual.now_popDue hpop he hkind nofun
    exact ⟨count + 1, hmoved.overflow (by rw [hsame, ← htime]; exact hdue) log⟩
  · have hother := System.sameAt_dispatch_other hmoved.counts hevent log
    have hclock := System.now_dispatch { s with queue } event log
    exact ⟨count, hmoved.frame hother (System.overflowTime_congr hother hclock) (by rw [hclock])
      rfl (if_neg hevent)⟩

/-- Lowering the clocks is accounted for. -/
theorem Kept.lower {s : Session} (h : c.Kept p i s.system u count) :
    c.Kept p i s.rebase.system (u ++ [.lowered s.system.queue.rebase.1]) count := by
  obtain ⟨hreload, hcontrol, -⟩ := System.frame_rebase s p i
  have htime := System.overflowTime_rebase s p i
  have hclock := s.toNat_now_rebase
  have hnext := h.next
  have hsum : loweredBy (u ++ [.lowered s.system.queue.rebase.1]) =
      loweredBy u + s.system.queue.rebase.1.toNat := Happening.loweredBy_append ..
  unfold Session.now at hclock
  refine ⟨?_, ?_, ?_, ?_, fun hcount => ?_, ?_⟩
  · rw [System.countsTime_congr hcontrol]
    exact h.counts
  · rw [hcontrol]
    exact h.prescaler
  · rw [hreload]
    exact h.reload
  · rw [hsum]
    omega
  · have hlast := h.last hcount
    rw [hsum]
    omega
  · rw [Happening.overflows_append, h.handled]
    exact List.append_nil _

/-- **A timer that is left alone keeps to its course**, whatever else happens. -/
theorem kept_chronicle (c : Course) (p : Processor) (i : Fin 4) :
    Chronicle fun s u => Ticks p i s ∧
      ((∀ h ∈ u, ¬ h.touches p i) → ∃ count, c.Kept p i s u count) where
  congr {s s' u} h htimers hdivider hroot hqueue := by
    refine ⟨(System.ticks_chronicle p i).congr (t := u) h.1 htimers hdivider hroot hqueue,
      fun halone => ?_⟩
    obtain ⟨count, hkept⟩ := h.2 halone
    have hsame : Timers.SameAt i (s.timers.get p) (s'.timers.get p) := by
      rw [htimers]
      exact .refl _ _
    exact ⟨count, hkept.silent hsame (System.overflowTime_congr hsame (by rw [hqueue]))
      (by rw [hqueue])⟩
  wrote {s u} hpunctual hnow h q lanes log r := by
    refine ⟨h.1.writeIo hpunctual.sound hnow q lanes log r, fun halone => ?_⟩
    obtain ⟨count, hkept⟩ := h.2 fun h hmem => halone h (List.mem_append_left _ hmem)
    have hother := halone _ (List.mem_append_right _ (List.mem_singleton_self _))
    have hsame := s.sameAt_writeIo q lanes log r hother
    have hclock := s.now_writeIo q lanes log r
    exact ⟨count, hkept.frame hsame (System.overflowTime_congr hsame hclock) (by rw [hclock])
      rfl rfl⟩
  paused {s u} hsound h delay := by
    refine ⟨(System.ticks_chronicle p i).paused (t := u) hsound h.1 delay, fun halone => ?_⟩
    obtain ⟨count, hkept⟩ := h.2 halone
    have hclock : (s.queue.schedule .pause delay).now = s.queue.now := EventQueue.now_schedule _ _ _
    exact ⟨count, hkept.silent (.refl _ _) (System.overflowTime_congr (.refl _ _) hclock)
      (by rw [hclock])⟩
  fired {s u target event queue} hpunctual hrange hnow hpop h log := by
    refine ⟨(System.ticks_chronicle p i).fired (t := u) hpunctual hrange hnow hpop h.1 log,
      fun halone => ?_⟩
    obtain ⟨count, hkept⟩ := h.2 fun h hmem => halone h (List.mem_append_left _ hmem)
    exact hkept.fired h.1 hpunctual hrange hnow hpop log
  passed {s u target} hpunctual hrange hnow hpop h := by
    refine ⟨(System.ticks_chronicle p i).passed (t := u) hpunctual hrange hnow hpop h.1,
      fun halone => ?_⟩
    obtain ⟨count, hkept⟩ := h.2 halone
    have hahead := h.1.ahead hkept.counts hpunctual
    have hmax := EventQueue.toNat_max s.queue.now target
    have hforward : s.queue.now.toNat ≤ (max s.queue.now target).toNat := by omega
    have hbound : (max s.queue.now target).toNat < clockBound := by omega
    exact ⟨count, hkept.silent (.refl _ _)
      (System.overflowTime_moved rfl hforward hbound (by omega)) hforward⟩
  lowered hsound hpositive h := by
    refine ⟨h.1.lower hpositive, fun halone => ?_⟩
    obtain ⟨count, hkept⟩ := h.2 fun h hmem => halone h (List.mem_append_left _ hmem)
    exact ⟨count, hkept.lower⟩

end Course

/-! ## Sessions -/

/-- A timer of a session has kept to a course, `u` being the record since its beginning: its counter
is that of the course, the overflows that were handled are those of the course, each in time, and
the next one waits. Times count on over a lowering of the clocks. -/
structure Course.Followed (c : Course) (p : Processor) (i : Fin 4) (s : Session)
    (u : List Happening) : Prop where
  counter : ((s.system.timers.get p).read i s.now).toNat = c.counter (s.now.toNat + loweredBy u)
  handled : overflows p i 0 u = c.overflowsUpTo (s.now.toNat + loweredBy u)
  waits : ∃ e, s.system.queue.events.filter (·.kind = overflowEvent p i) = [e] ∧
    e.time.toInt + loweredBy u = c.next (s.now.toNat + loweredBy u)

section
variable {c : Course} {p : Processor} {i : Fin 4} {s : Session} {u : List Happening} {count : ℕ}
  (h : c.Kept p i s.system u count) (hticks : Ticks p i s.system) (hpunctual : Punctual 1 s.system)
include h hticks hpunctual

/-- In a session the next overflow is yet to come, so the time tells how many there were. -/
theorem Course.Kept.position : c.count (s.now.toNat + loweredBy u) = count ∧
    (c.next (s.now.toNat + loweredBy u) : ℤ) = s.system.overflowTime p i + loweredBy u := by
  have hahead := hticks.ahead h.counts hpunctual
  have hnext := h.next
  have hnow : s.now = s.system.queue.now := rfl
  have hperiod : 0 < c.period := by
    have hbound := (((s.system.timers.get p).control.get i).period_bounds
      ((s.system.timers.get p).reload.get i)).1
    rw [h.period_eq] at hbound
    omega
  have hcount : c.count (s.now.toNat + loweredBy u) = count := by
    refine c.count_eq hperiod (fun hcount => ?_) (by rw [hnow]; zify; omega)
    have hlast := h.last hcount
    rw [hnow]
    omega
  refine ⟨hcount, ?_⟩
  unfold Course.next
  rw [hcount, hnext]
  push_cast
  ring

/-- The counter reads what is left of the way to the next overflow. -/
theorem Course.Kept.read : ((s.system.timers.get p).read i s.now).toNat =
    c.counter (s.now.toNat + loweredBy u) := by
  let timers := s.system.timers.get p
  obtain ⟨-, hdue⟩ := h.position hticks hpunctual
  have hahead := hticks.ahead h.counts hpunctual
  have hnow : s.now = s.system.queue.now := rfl
  have hprescaler := (timers.control.get i).prescaler_bounds.1
  have hdef : s.system.overflowTime p i = s.system.queue.now.toNat - s.system.elapsed p i +
    (timers.control.get i).period (timers.counters.get i) := rfl
  have hway : s.system.elapsed p i +
      (c.next (s.now.toNat + loweredBy u) - (s.now.toNat + loweredBy u)) =
        (timers.control.get i).period (timers.counters.get i) := by
    rw [hnow] at hdue ⊢
    omega
  have hless : s.system.elapsed p i <
      (timers.control.get i).period (timers.counters.get i) := by omega
  refine (Timers.toNat_read h.counts rfl hless).trans ?_
  refine (Course.counter_of_elapsed (by omega) (timers.counters.get i).toNat_lt
    (by rw [hnow] at hdue ⊢; omega) hway).trans ?_
  unfold Course.counter
  rw [h.prescaler]

/-- So the course says everything about the timer. -/
theorem Course.Kept.followed : c.Followed p i s u := by
  obtain ⟨hcount, hdue⟩ := h.position hticks hpunctual
  obtain ⟨e, he, hkind, htime⟩ := hticks h.counts
  refine ⟨h.read hticks hpunctual, ?_, e, ?_, ?_⟩
  · unfold Course.overflowsUpTo
    rw [hcount]
    exact h.handled
  · rw [← hkind]
    exact hpunctual.sound.coherent.distinct.filter_kind he
  · rw [htime, hdue]

end

/-- **A timer that is left alone follows its course.** In a run of any session that a console can
come to, the state of a timer that counts time says what it does as long as its registers are not
written to. -/
theorem Session.follows {s a : Session} {u : List Happening} (reachable : s.Reachable)
    (run : s.Run u a) {p : Processor} {i : Fin 4}
    (counts : (s.system.timers.get p).countsTime i = true)
    (alone : ∀ h ∈ u, ¬ h.touches p i) : (s.system.course p i).Followed p i a u := by
  obtain ⟨t, past⟩ := reachable.past
  have hticks : Ticks p i s.system :=
    (System.ticks_chronicle p i).past (System.ticks_initial p i) past
  have hahead := hticks.ahead counts reachable.consistent.punctual
  have hstart := Course.kept_start counts (by omega)
  obtain ⟨⟨hlast, hkept⟩, hreachable⟩ :=
    ((s.system.course p i).kept_chronicle p i).run reachable
      (t := []) ⟨hticks, fun _ => ⟨0, hstart⟩⟩ run
  obtain ⟨count, hkept⟩ := hkept alone
  exact hkept.followed hlast hreachable.consistent.punctual

end Handheld.Console
