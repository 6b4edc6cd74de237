import Mathlib
import Handheld.Proofs.EventQueue.Lateness
import Handheld.Proofs.EventQueue.Operations

/-!
# Advances end, and leave nothing due

A handler may schedule as many events as it likes, its own kind among them, so the number of events
does not bound how many fire. But what it schedules lies ahead of the clock. So while the clock
stands still there are fewer and fewer events that it has reached, and it can only move on as far
as the target: at each time no more events fire than fit into the queue.

* `Ahead` is what such a handler does to the queue, `calls` the calls that it gets;
* `reached` counts the events that the clock has reached, `fuelFor` bounds the calls by it;
* `advance_drains` is the statement for every queue that a program can come to.
-/

namespace Handheld.EventQueue

variable {κ : Type} [DecidableEq κ]

/-! ## Scheduling ahead -/

/-- What a handler does to a queue that only schedules events ahead of the clock. -/
inductive Ahead (q : EventQueue κ) : EventQueue κ → Prop
  | nothing : Ahead q q
  | schedule {q' : EventQueue κ} (earlier : Ahead q q') (kind : κ) {delay : Int64}
      (positive : 1 ≤ delay.toInt) : Ahead q (q'.schedule kind delay)

/-- Number of waiting events that the clock has reached. -/
def reached (q : EventQueue κ) : ℕ := (q.events.filter (·.time ≤ q.now.toInt64)).length

omit [DecidableEq κ] in
/-- An event that is scheduled ahead is one that the clock has not reached. -/
theorem now_lt_dueTime {q : EventQueue κ} (hrange : q.now.toNat < 2 ^ 62) {delay : Int64}
    (positive : 1 ≤ delay.toInt) : q.now.toInt64 < q.dueTime delay := by
  rw [Int64.lt_iff_toInt_lt, dueTime, toInt_saturatingAdd, toInt_toInt64 (by omega)]
  omega

/-- Scheduling ahead adds nothing to the events that the clock has reached. -/
theorem reached_schedule_le {q : EventQueue κ} (hrange : q.now.toNat < 2 ^ 62) (kind : κ)
    {delay : Int64} (positive : 1 ≤ delay.toInt) :
    (q.schedule kind delay).reached ≤ q.reached := by
  by_cases hr : q.refuses kind = true
  · rw [schedule_of_refuses hr]
  · have hnew := now_lt_dueTime hrange positive
    unfold reached
    rw [now_schedule, events_schedule (Bool.not_eq_true _ ▸ hr),
      filter_insert _ _ (by simpa using hnew)]
    have hsublist : (remove kind q.events).Sublist q.events := by
      unfold remove
      rw [← List.reverse_reverse q.events, List.reverse_sublist, List.reverse_reverse]
      exact List.eraseP_sublist
    exact (hsublist.filter _).length_le

namespace Ahead

variable {q q' : EventQueue κ} (h : Ahead q q')

include h

theorem now_eq : q'.now = q.now := by
  induction h with
  | nothing => rfl
  | schedule _ kind _ ih => rw [now_schedule, ih]

theorem coherent (hq : q.Coherent) : q'.Coherent := by
  induction h with
  | nothing => exact hq
  | schedule _ kind _ ih => exact ih.schedule kind _

theorem reached_le (hrange : q.now.toNat < 2 ^ 62) : q'.reached ≤ q.reached := by
  induction h with
  | nothing => exact le_refl _
  | schedule earlier kind positive ih =>
    exact (reached_schedule_le (by rwa [earlier.now_eq]) kind positive).trans ih

end Ahead

/-! ## The calls of a handler -/

/-- The calls that a handler gets while the clock is advanced, but no more than so many: the queue
that it is given, its own state and the event. -/
def calls {σ : Type} (handler : EventQueue κ → σ → Fired κ → EventQueue κ × σ) (target : UInt64) :
    ℕ → EventQueue κ → σ → List (EventQueue κ × σ × Fired κ)
  | 0, _, _ => []
  | n + 1, q, s =>
    match q.popDue target with
    | none => []
    | some (event, q') =>
      (q', s, event) :: calls handler target n (handler q' s event).1 (handler q' s event).2

/-- Enough for every event that fires: those that the clock has reached, and at every later time up
to the target as many as fit into the queue. -/
def fuelFor (q : EventQueue κ) (target : UInt64) : ℕ :=
  q.reached + capacity * (target.toNat - q.now.toNat)

omit [DecidableEq κ] in
/-- Each event that is taken leaves less to be done. Either the clock had reached it, and there is
one less of those; or the clock moves on to it. -/
theorem fuelFor_popDue_lt {q q' : EventQueue κ} (hq : q.Coherent) {target : UInt64}
    (hrange : max q.now.toNat target.toNat < 2 ^ 62) {event : Fired κ}
    (popped : q.popDue target = some (event, q')) : q'.fuelFor target < q.fuelFor target := by
  obtain ⟨e, rest, hevents, hdue, -, rfl⟩ :=
    (popDue_eq_some_iff hq target event q').mp popped
  have hsize := hq.size_le
  have hclamp := toNat_clampTime e.time
  have hmax := toNat_max q.now (clampTime e.time)
  rw [Int64.le_iff_toInt_le, toInt_toInt64 (by omega)] at hdue
  unfold fuelFor reached
  show (rest.filter (·.time ≤ (max q.now (clampTime e.time)).toInt64)).length +
      capacity * (target.toNat - (max q.now (clampTime e.time)).toNat) < _
  rw [hevents] at hsize ⊢
  by_cases hreached : e.time ≤ q.now.toInt64
  · have hle : e.time.toInt ≤ q.now.toNat := by
      rwa [Int64.le_iff_toInt_le, toInt_toInt64 (by omega)] at hreached
    have hnow : max q.now (clampTime e.time) = q.now := by
      rw [← UInt64.toNat_inj]
      omega
    rw [hnow, List.filter_cons_of_pos (by simpa using hreached), List.length_cons]
    omega
  · have hlt : (q.now.toNat : ℤ) < e.time.toInt := by
      rw [Int64.not_le, Int64.lt_iff_toInt_lt, toInt_toInt64 (by omega)] at hreached
      exact hreached
    -- Even if the clock reaches all of the others now, they fit into the queue.
    have hrest := List.length_filter_le
      (fun b : Pending κ => decide (b.time ≤ (max q.now (clampTime e.time)).toInt64)) rest
    rw [List.length_cons] at hsize
    unfold capacity at hsize ⊢
    omega

/-! ## Draining -/

/-- An advance that is over after `n` calls of the handler. -/
structure Drained {σ : Type} (handler : EventQueue κ → σ → Fired κ → EventQueue κ × σ)
    (target : UInt64) (q : EventQueue κ) (s : σ) (n : ℕ) (q' : EventQueue κ) (s' : σ) : Prop where
  returns : ∀ fuel, q.advanceTo? handler target fuel s = if n ≤ fuel then some (q', s') else none
  count : ∀ fuel, n ≤ fuel → (calls handler target fuel q s).length = n
  bound : n ≤ q.fuelFor target
  /-- The clock does not go back from one call to the next. -/
  ordered : (q.now :: (calls handler target n q s).map (·.1.now)).Pairwise (· ≤ ·)
  /-- Nothing that waits is due. -/
  later : ∀ e ∈ q'.events, (target.toNat : ℤ) < e.time.toInt
  now : q'.now = max q.now target

namespace Drained

variable {σ : Type} {handler : EventQueue κ → σ → Fired κ → EventQueue κ × σ} {target : UInt64}
  {q q₁ q' : EventQueue κ} {s s' : σ}

omit [DecidableEq κ] in
/-- With nothing due, the advance is over at once. -/
theorem nothing (hq : q.Coherent) (range : target.toNat < 2 ^ 62)
    (popped : q.popDue target = none) :
    Drained handler target q s 0 { q with now := max q.now target } s where
  returns fuel := by
    rw [if_pos (Nat.zero_le fuel), advanceTo?, popped]
  count fuel _ := by
    cases fuel with
    | zero => rfl
    | succ fuel => rw [calls, popped, List.length_nil]
  bound := Nat.zero_le _
  ordered := List.pairwise_singleton _ _
  later e he := by
    have hlater := (popDue_eq_none_iff hq target).mp popped e he
    rwa [Int64.lt_iff_toInt_lt, toInt_toInt64 (by omega)] at hlater
  now := rfl

/-- An event fires, and the advance goes on from what the handler makes of the queue. -/
theorem step (hq : q.Coherent) (hrange : max q.now.toNat target.toNat < 2 ^ 62)
    {event : Fired κ} (popped : q.popDue target = some (event, q₁))
    (ahead : Ahead q₁ (handler q₁ s event).1) {n : ℕ}
    (h : Drained handler target (handler q₁ s event).1 (handler q₁ s event).2 n q' s') :
    Drained handler target q s (n + 1) q' s' := by
  obtain ⟨hforward, hbound⟩ := toNat_now_popDue hq popped
  have hclock := ahead.now_eq
  refine ⟨?_, ?_, ?_, ?_, h.later, ?_⟩
  · intro fuel
    rw [advanceTo?, popped]
    cases fuel with
    | zero => rw [if_neg (Nat.not_succ_le_zero n)]
    | succ fuel =>
      show advanceTo? handler target fuel _ _ = _
      rw [h.returns fuel]
      simp only [Nat.add_le_add_iff_right]
  · intro fuel hfuel
    cases fuel with
    | zero => exact absurd hfuel (Nat.not_succ_le_zero n)
    | succ fuel =>
      rw [calls, popped, List.length_cons, h.count fuel (Nat.le_of_succ_le_succ hfuel)]
  · have hless := fuelFor_popDue_lt hq hrange popped
    have hreached := ahead.reached_le (by omega)
    have hn := h.bound
    unfold fuelFor at hless hn ⊢
    rw [hclock] at hn
    omega
  · have hrest := h.ordered
    have hle : q.now ≤ q₁.now := UInt64.le_iff_toNat_le.mpr hforward
    rw [hclock] at hrest
    rw [calls, popped, List.map_cons]
    refine List.pairwise_cons.mpr ⟨?_, hrest⟩
    intro t ht
    rcases List.mem_cons.mp ht with rfl | ht
    · exact hle
    · exact UInt64.le_trans hle ((List.pairwise_cons.mp hrest).1 t ht)
  · have hmax := toNat_max q₁.now target
    have hmax' := toNat_max q.now target
    rw [h.now, hclock, ← UInt64.toNat_inj]
    omega

end Drained

/-- On a queue whose clock is in range, an advance under a handler that schedules ahead is over
after some number of calls. -/
theorem Coherent.drains {σ : Type} {handler : EventQueue κ → σ → Fired κ → EventQueue κ × σ}
    {target : UInt64} {q : EventQueue κ} (hq : q.Coherent)
    (hrange : max q.now.toNat target.toNat < 2 ^ 62) (s : σ)
    (ahead : ∀ q₁ s₁ event, Invoked handler target q s q₁ s₁ event →
      Ahead q₁ (handler q₁ s₁ event).1) :
    ∃ n q' s', Drained handler target q s n q' s' := by
  -- What the handler schedules may fire, too: the induction is on the bound, not on the queue.
  induction hfuel : q.fuelFor target using Nat.strong_induction_on generalizing q s with
  | _ fuel ih =>
    cases popped : q.popDue target with
    | none => exact ⟨0, _, s, .nothing hq (by omega) popped⟩
    | some p =>
      obtain ⟨event, q₁⟩ := p
      have hfirst := ahead q₁ s event (.first popped)
      obtain ⟨-, hbound⟩ := toNat_now_popDue hq popped
      have hclock := hfirst.now_eq
      have hless : (handler q₁ s event).1.fuelFor target < fuel := by
        have hpop := fuelFor_popDue_lt hq hrange popped
        have hreached := hfirst.reached_le (by omega)
        unfold fuelFor at hpop hfuel ⊢
        rw [hclock]
        omega
      obtain ⟨n, q', s', hrest⟩ := ih _ hless
        (hfirst.coherent (hq.popDue popped)) (by rw [hclock]; omega) (handler q₁ s event).2
        (fun q₂ s₂ e hcalled => ahead q₂ s₂ e (.later popped hcalled)) rfl
      exact ⟨n + 1, q', s', .step hq hrange popped hfirst hrest⟩

/-- **Advancing the clock ends and drains the queue.** Of every queue that a program can come to,
whatever delays it has used, and for every handler that only schedules ahead of the clock: the
advance returns after a number of calls that `fuelFor` bounds, the clock never goes back from one
call to the next, and afterwards nothing that waits is due and the clock is at the target, unless it
was past it. -/
theorem advance_drains {σ : Type} {handler : EventQueue κ → σ → Fired κ → EventQueue κ × σ}
    {q : EventQueue κ} {trace : List (Action κ)} (usage : Usage {} trace q) {target : UInt64}
    (range : target.toNat < 2 ^ 62) (s : σ)
    (ahead : ∀ q₁ s₁ event, Invoked handler target q s q₁ s₁ event →
      Ahead q₁ (handler q₁ s₁ event).1) :
    ∃ n q' s', Drained handler target q s n q' s' := by
  have htimed := Timed.empty.moves usage.moves
  have hnow := htimed.range
  exact htimed.coherent.drains (by omega) s ahead

/-- A handler under which the first kind comes again and brings the second one with it. -/
def metronome (q : EventQueue Bool) (beats : ℕ) (event : Fired Bool) : EventQueue Bool × ℕ :=
  (if event.kind then q else (q.schedule false 10).schedule true 1, beats + 1)

/-- An overdue event and one that keeps coming back. -/
theorem advance_drains_metronome :
    ∃ n q' beats,
      Drained metronome 45 ((schedule {} true (-7)).schedule false 10) 0 n q' beats := by
  have hschedule : Usage ({} : EventQueue Bool) [.schedule true (-7)] (schedule {} true (-7)) :=
    .schedule {} true (-7)
  refine advance_drains (hschedule.append (.schedule _ false 10)) (by decide) 0 ?_
  intro q₁ beats event _
  unfold metronome
  by_cases hkind : event.kind = true
  · rw [if_pos hkind]
    exact .nothing
  · rw [if_neg hkind]
    exact .schedule (.schedule .nothing false (by decide)) true (by decide)

end Handheld.EventQueue
