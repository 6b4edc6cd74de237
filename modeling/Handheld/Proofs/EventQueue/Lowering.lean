import Mathlib
import Handheld.Proofs.EventQueue.Coherence

/-!
# Lowered event queues

A queue whose clock and events are all lowered by one amount does what it did before, as much
earlier: the same events are refused, take each other's place, are due, and fire equally late.
`rebase` is such a lowering.

* `EventQueue.Lowerable` says that lowering a queue carries neither the clock nor an event out of
  its range;
* `Lowerable.schedule_lowered` and `Lowerable.popDue_lowered` say that the operations commute with
  it.
-/

namespace Handheld
namespace EventQueue

variable {κ : Type} {q : EventQueue κ} {amount : UInt64}

/-- Lowering twice is lowering by the sum. -/
theorem lowered_lowered (a b : UInt64) (q : EventQueue κ) :
    (q.lowered a).lowered b = q.lowered (a + b) := by
  have hevents : (q.events.map (Pending.lower · a.toInt64)).map (Pending.lower · b.toInt64) =
      q.events.map (Pending.lower · (a + b).toInt64) := by
    rw [List.map_map]
    refine List.map_congr_left fun e _ => ?_
    show ({ e with time := e.time - a.toInt64 - b.toInt64 } : Pending κ) =
      { e with time := e.time - (a + b).toInt64 }
    rw [UInt64.toInt64_add, Int64.sub_sub]
  have hnow : q.now - a - b = q.now - (a + b) := sub_sub q.now a b
  unfold lowered refresh
  dsimp only
  rw [hevents, hnow]

/-- A coherent queue stays as it is if it is lowered by nothing. -/
theorem Coherent.lowered_zero (h : q.Coherent) : q.lowered 0 = q := by
  have hevents : q.events.map (Pending.lower · (0 : UInt64).toInt64) = q.events := by
    conv_rhs => rw [← List.map_id q.events]
    refine List.map_congr_left fun e _ => ?_
    show ({ e with time := e.time - 0 } : Pending κ) = e
    rw [Int64.sub_zero]
  unfold EventQueue.lowered refresh
  dsimp only
  rw [hevents, UInt64.sub_zero, ← h.next_eq]

/-! ## Times in range -/

/-- The queue can be lowered by so much: neither the clock nor an event leaves its range. -/
structure Lowerable (amount : UInt64) (q : EventQueue κ) : Prop where
  coherent : q.Coherent
  clock : amount.toNat ≤ q.now.toNat
  range : q.now.toNat < 2 ^ 63
  events : ∀ e ∈ q.events, -2 ^ 63 + (amount.toNat : ℤ) ≤ e.time.toInt

theorem toNat_sub_amount {t : UInt64} (h : amount.toNat ≤ t.toNat) :
    (t - amount).toNat = t.toNat - amount.toNat :=
  UInt64.toNat_sub_of_le _ _ (UInt64.le_iff_toNat_le.mpr h)

namespace Lowerable

variable (h : q.Lowerable amount)

include h

theorem amount_lt : amount.toNat < 2 ^ 63 := h.clock.trans_lt h.range

theorem toInt_time {e : Pending κ} (he : e ∈ q.events) :
    (e.lower amount.toInt64).time.toInt = e.time.toInt - amount.toNat :=
  toInt_lower h.amount_lt (h.events e he)

theorem toNat_now : (q.lowered amount).now.toNat = q.now.toNat - amount.toNat :=
  toNat_sub_amount h.clock

/-! ## Taking events -/

/-- The clock that an event is fired at is lowered as much. An event may have gone below zero, but
then it was behind the clock. -/
theorem max_clampTime {e : Pending κ} (he : e ∈ q.events) :
    max (q.lowered amount).now (clampTime (e.lower amount.toInt64).time) =
      max q.now (clampTime e.time) - amount := by
  have hclock := h.clock
  have hnow := h.toNat_now
  have htime := h.toInt_time he
  have hclamp := toNat_clampTime e.time
  have hclamp' := toNat_clampTime (e.lower amount.toInt64).time
  have hmax := toNat_max q.now (clampTime e.time)
  rw [← UInt64.toNat_inj, toNat_max, toNat_sub_amount (by omega), hmax]
  omega

/-- **Taking an event commutes with lowering**, and the event is as late. -/
theorem popDue_lowered {target : UInt64} (hle : q.now.toNat ≤ target.toNat)
    (hrange : target.toNat < 2 ^ 63) :
    (q.lowered amount).popDue (target - amount) =
      (q.popDue target).map fun popped => (popped.1, popped.2.lowered amount) := by
  have hclock := h.clock
  cases hevents : q.events with
  | nil =>
    have hnil : (q.lowered amount).events = [] := by
      show q.events.map (Pending.lower · amount.toInt64) = []
      rw [hevents, List.map_nil]
    rw [popDue_of_nil hevents, popDue_of_nil hnil]
    rfl
  | cons e rest =>
    have he : e ∈ q.events := by
      rw [hevents]
      exact List.mem_cons_self
    have hcons : (q.lowered amount).events = e.lower amount.toInt64 ::
        rest.map (Pending.lower · amount.toInt64) := by
      show q.events.map (Pending.lower · amount.toInt64) = _
      rw [hevents, List.map_cons]
    have hdue : (target - amount).toInt64 < (e.lower amount.toInt64).time ↔
        target.toInt64 < e.time := by
      have hsub := toNat_sub_amount (hclock.trans hle)
      rw [Int64.lt_iff_toInt_lt, Int64.lt_iff_toInt_lt, h.toInt_time he, toInt_toInt64 hrange,
        toInt_toInt64 (by omega), hsub]
      omega
    -- The lateness is the difference of two times that are lowered alike.
    have hlate : (max q.now (clampTime e.time) - amount).toInt64 -
        (e.lower amount.toInt64).time = (max q.now (clampTime e.time)).toInt64 - e.time := by
      show _ - (e.time - amount.toInt64) = _
      rw [UInt64.toInt64_sub]
      grind
    have hlowered := h.coherent.lowered h.amount_lt h.events
    rw [popDue_of_cons hlowered hcons, popDue_of_cons h.coherent hevents, h.max_clampTime he,
      hlate]
    by_cases hlt : target.toInt64 < e.time
    · rw [if_pos hlt, if_pos (hdue.mpr hlt)]
      rfl
    · rw [if_neg hlt, if_neg (mt hdue.mp hlt)]
      rfl

/-- The time of the first event is lowered, and reported as zero if it goes below. -/
theorem nextTime_lowered :
    (q.nextTime? = none ∧ (q.lowered amount).nextTime? = none) ∨
    ∃ t t', q.nextTime? = some t ∧ (q.lowered amount).nextTime? = some t' ∧
      t'.toNat = t.toNat - amount.toNat := by
  unfold nextTime? EventQueue.lowered refresh
  dsimp only
  cases hevents : q.events with
  | nil => exact .inl ⟨rfl, rfl⟩
  | cons e rest =>
    have htime := h.toInt_time (e := e) (by rw [hevents]; exact List.mem_cons_self)
    have hclamp := toNat_clampTime e.time
    have hclamp' := toNat_clampTime (e.lower amount.toInt64).time
    exact .inr ⟨clampTime e.time, clampTime (e.lower amount.toInt64).time, rfl, rfl, by omega⟩

/-- A queue can be lowered by as much once an event was taken from it. -/
theorem popDue {target : UInt64} (hrange : target.toNat < 2 ^ 63) {fired : Fired κ}
    {rest : EventQueue κ} (popped : q.popDue target = some (fired, rest)) :
    rest.Lowerable amount := by
  obtain ⟨hforward, hbound⟩ := toNat_now_popDue h.coherent popped
  have hnow := h.range
  refine ⟨h.coherent.popDue popped, h.clock.trans hforward, by omega, ?_⟩
  obtain ⟨e, events, hevents, -, -, rfl⟩ :=
    (popDue_eq_some_iff h.coherent target fired rest).mp popped
  intro e' he'
  refine h.events e' ?_
  rw [hevents]
  exact List.mem_cons_of_mem e he'

end Lowerable

/-! ## Scheduling -/

theorem insert_cons (e a : Pending κ) (events : List (Pending κ)) :
    insert e (a :: events) =
      if a.time ≤ e.time then a :: insert e events else e :: a :: events := by
  unfold insert
  by_cases hle : a.time ≤ e.time
  · rw [if_pos hle, List.takeWhile_cons_of_pos (by simpa using hle),
      List.dropWhile_cons_of_pos (by simpa using hle), List.cons_append]
  · rw [if_neg hle, List.takeWhile_cons_of_neg (by simpa using hle),
      List.dropWhile_cons_of_neg (by simpa using hle), List.nil_append]

/-- Lowering keeps the order of events. -/
theorem insert_lower (hamount : amount.toNat < 2 ^ 63) {e : Pending κ}
    {events : List (Pending κ)} (he : -2 ^ 63 + (amount.toNat : ℤ) ≤ e.time.toInt)
    (hevents : ∀ a ∈ events, -2 ^ 63 + (amount.toNat : ℤ) ≤ a.time.toInt) :
    insert (e.lower amount.toInt64) (events.map (Pending.lower · amount.toInt64)) =
      (insert e events).map (Pending.lower · amount.toInt64) := by
  induction events with
  | nil => rfl
  | cons a events ih =>
    obtain ⟨ha, hrest⟩ := List.forall_mem_cons.mp hevents
    have hsame : (a.lower amount.toInt64).time ≤ (e.lower amount.toInt64).time ↔
        a.time ≤ e.time := by
      rw [Int64.le_iff_toInt_le, Int64.le_iff_toInt_le, toInt_lower hamount ha,
        toInt_lower hamount he]
      omega
    rw [List.map_cons, insert_cons, insert_cons, ih hrest]
    by_cases hle : a.time ≤ e.time
    · rw [if_pos hle, if_pos (hsame.mpr hle), List.map_cons]
    · rw [if_neg hle, if_neg (mt hsame.mp hle), List.map_cons, List.map_cons]

variable [DecidableEq κ]

theorem remove_lower (kind : κ) (amount : Int64) (events : List (Pending κ)) :
    remove kind (events.map (Pending.lower · amount)) =
      (remove kind events).map (Pending.lower · amount) := by
  unfold remove
  rw [← List.map_reverse, List.eraseP_map, List.map_reverse]
  rfl

theorem refuses_lowered (amount : UInt64) (q : EventQueue κ) (kind : κ) :
    (q.lowered amount).refuses kind = q.refuses kind := by
  unfold refuses isScheduled size lowered refresh
  dsimp only
  rw [List.any_map, List.length_map]
  rfl

namespace Lowerable

variable (h : q.Lowerable amount)

include h

omit [DecidableEq κ] in
/-- An event that is scheduled after the same delay is lowered as much. -/
theorem dueTime_lowered {delay : Int64} (hdelay : q.now.toNat + delay.toInt < 2 ^ 63) (kind : κ) :
    -2 ^ 63 + (amount.toNat : ℤ) ≤ (q.dueTime delay).toInt ∧
      (⟨kind, (q.lowered amount).dueTime delay⟩ : Pending κ) =
        Pending.lower ⟨kind, q.dueTime delay⟩ amount.toInt64 := by
  have hclock := h.clock
  have hrange := h.range
  have hnow := h.toNat_now
  have hlow := delay.le_toInt
  have htime : (q.dueTime delay).toInt = q.now.toNat + delay.toInt :=
    q.toInt_dueTime hrange (by omega) hdelay
  have hbound : -2 ^ 63 + (amount.toNat : ℤ) ≤ (q.dueTime delay).toInt := by omega
  refine ⟨hbound, ?_⟩
  have hlowered : ((q.lowered amount).dueTime delay).toInt =
      (Pending.lower (⟨kind, q.dueTime delay⟩ : Pending κ) amount.toInt64).time.toInt := by
    rw [toInt_lower (e := ⟨kind, q.dueTime delay⟩) h.amount_lt hbound,
      toInt_dueTime _ (by omega) (by omega) (by omega), hnow, htime]
    omega
  rw [Int64.toInt_inj.mp hlowered]
  rfl

/-- **Scheduling commutes with lowering.** -/
theorem schedule_lowered (kind : κ) {delay : Int64}
    (hdelay : q.now.toNat + delay.toInt < 2 ^ 63) :
    (q.lowered amount).schedule kind delay = (q.schedule kind delay).lowered amount ∧
      (q.schedule kind delay).Lowerable amount := by
  cases hrefuses : q.refuses kind with
  | true =>
    rw [schedule_of_refuses hrefuses, schedule_of_refuses (by rw [refuses_lowered, hrefuses])]
    exact ⟨rfl, h⟩
  | false =>
    obtain ⟨hbound, hdue⟩ := h.dueTime_lowered hdelay kind
    have hremoved : ∀ e ∈ remove kind q.events, -2 ^ 63 + (amount.toNat : ℤ) ≤ e.time.toInt := by
      intro e he
      rw [remove_eq_filter h.coherent.distinct] at he
      exact h.events e (List.mem_of_mem_filter he)
    constructor
    · have hevents : insert ⟨kind, (q.lowered amount).dueTime delay⟩
          (remove kind (q.events.map (Pending.lower · amount.toInt64))) =
          (insert ⟨kind, q.dueTime delay⟩ (remove kind q.events)).map
            (Pending.lower · amount.toInt64) := by
        rw [hdue, remove_lower,
          insert_lower (e := ⟨kind, q.dueTime delay⟩) h.amount_lt hbound hremoved]
      unfold schedule
      rw [refuses_lowered, hrefuses, if_neg Bool.false_ne_true, if_neg Bool.false_ne_true]
      exact congrArg (fun events => refresh { q.lowered amount with events }) hevents
    · have hnow : (q.schedule kind delay).now = q.now := now_schedule q kind delay
      refine ⟨h.coherent.schedule kind delay, by rw [hnow]; exact h.clock,
        by rw [hnow]; exact h.range, fun e he => ?_⟩
      rcases (mem_schedule h.coherent hrefuses delay e).mp he with rfl | ⟨he, -⟩
      · exact hbound
      · exact h.events e he

end Lowerable

end EventQueue
end Handheld
