import Mathlib
import Handheld.EventQueue.Saved
import Handheld.Proofs.EventQueue.Coherence

/-!
# Operations on a queue

What can be done to an event queue, whatever its times: no delay, clock or target is out of range
here. Under every operation a queue stays within its capacity, and at most one event of a kind
waits. The order of the events does depend on ranges, so it is not among these.
-/

namespace Handheld.EventQueue

variable {κ : Type} [DecidableEq κ]

/-- One thing that is done to a queue. -/
inductive Operation : EventQueue κ → EventQueue κ → Prop
  | schedule (q : EventQueue κ) (kind : κ) (delay : Int64) : Operation q (q.schedule kind delay)
  | pop {q q' : EventQueue κ} {target : UInt64} {event : Fired κ}
      (popped : q.popDue target = some (event, q')) : Operation q q'
  | clock (q : EventQueue κ) (now : UInt64) : Operation q { q with now }
  | rebase (q : EventQueue κ) : Operation q q.rebase.2

/-- The queues that come about by operations, from an empty one or from one that was read. -/
inductive Operated (kind : Codec κ) : EventQueue κ → Prop
  | new : Operated kind {}
  | operation {q q' : EventQueue κ} (operated : Operated kind q) (operation : Operation q q') :
    Operated kind q'
  | read {q : EventQueue κ} {bytes : ByteArray}
      (read : (EventQueue.codec kind).decode bytes = .ok q) : Operated kind q

/-! ## The events afterwards -/

omit [DecidableEq κ] in
/-- What is taken from a queue is its first event. -/
theorem events_popDue {q q' : EventQueue κ} {target : UInt64} {event : Fired κ}
    (h : q.popDue target = some (event, q')) : q'.events = q.events.tail := by
  unfold popDue at h
  by_cases hlate : q.next > target.toInt64
  · rw [if_pos hlate] at h
    cases h
  · rw [if_neg hlate] at h
    cases hevents : q.events with
    | nil =>
      rw [hevents] at h
      cases h
    | cons e rest =>
      rw [hevents] at h
      obtain ⟨-, rfl⟩ := Prod.mk.inj (Option.some.inj h)
      rfl

omit [DecidableEq κ] in
/-- Lowering the clock keeps the kinds of the events. -/
theorem kinds_rebase (q : EventQueue κ) :
    q.rebase.2.events.map (·.kind) = q.events.map (·.kind) := by
  by_cases hlow : q.now < rebaseAt
  · rw [rebase_of_lt hlow]
  · rw [rebase_of_le hlow]
    show (q.events.map (Pending.lower · rebaseAt.toInt64)).map (·.kind) = _
    rw [List.map_map]
    rfl

theorem events_schedule {q : EventQueue κ} {kind : κ} (h : q.refuses kind = false)
    (delay : Int64) :
    (q.schedule kind delay).events = insert ⟨kind, q.dueTime delay⟩ (remove kind q.events) := by
  rw [schedule, if_neg (by simp [h])]
  rfl

/-- Scheduling brings in no event but the one that is scheduled. -/
theorem kind_or_mem_of_mem_schedule {q : EventQueue κ} {kind : κ} {delay : Int64} {e : Pending κ}
    (he : e ∈ (q.schedule kind delay).events) : e.kind = kind ∨ e ∈ q.events := by
  by_cases hrefuses : q.refuses kind = true
  · rw [schedule_of_refuses hrefuses] at he
    exact .inr he
  · rw [events_schedule (Bool.not_eq_true _ ▸ hrefuses)] at he
    rcases List.mem_cons.mp ((insert_perm _ _).mem_iff.mp he) with rfl | hold
    · exact .inl rfl
    · exact .inr (List.mem_reverse.mp (List.mem_of_mem_eraseP (List.mem_reverse.mp hold)))

/-- Taking an event of a kind away leaves one less, if there is one. -/
theorem length_remove (kind : κ) (events : List (Pending κ)) :
    (remove kind events).length =
      if ∃ e ∈ events, e.kind = kind then events.length - 1 else events.length := by
  unfold remove
  rw [List.length_reverse, List.length_eraseP, List.length_reverse]
  simp

/-! ## Capacity -/

theorem Operation.length_le {q q' : EventQueue κ} (h : Operation q q')
    (hq : q.events.length ≤ capacity) : q'.events.length ≤ capacity := by
  cases h with
  | schedule kind delay =>
    by_cases hrefuses : q.refuses kind = true
    · rwa [schedule_of_refuses hrefuses]
    · have hroom := mt refuses_iff.mpr hrefuses
      rw [events_schedule (Bool.not_eq_true _ ▸ hrefuses), (insert_perm _ _).length_eq,
        List.length_cons, length_remove]
      by_cases hwaits : ∃ e ∈ q.events, e.kind = kind
      · -- The event takes the place of the one that waits.
        rw [if_pos hwaits]
        obtain ⟨e, he, -⟩ := hwaits
        have hpositive := List.length_pos_of_mem he
        omega
      · rw [if_neg hwaits]
        have hnone : ∀ e ∈ q.events, e.kind ≠ kind := fun e he hkind => hwaits ⟨e, he, hkind⟩
        have hfree : ¬ capacity ≤ q.events.length := fun hfull => hroom ⟨hnone, hfull⟩
        omega
  | pop popped =>
    rw [events_popDue popped, List.length_tail]
    omega
  | clock now => exact hq
  | rebase =>
    have hkinds := congrArg List.length q.kinds_rebase
    rw [List.length_map, List.length_map] at hkinds
    rwa [hkinds]

/-! ## Distinct kinds -/

theorem Distinct.schedule {q : EventQueue κ} (h : Distinct q.events) (kind : κ) (delay : Int64) :
    Distinct (q.schedule kind delay).events := by
  by_cases hrefuses : q.refuses kind = true
  · rwa [schedule_of_refuses hrefuses]
  · rw [events_schedule (Bool.not_eq_true _ ▸ hrefuses), remove_eq_filter h]
    refine ((insert_perm _ _).map _).nodup_iff.mpr (List.nodup_cons.mpr ⟨?_, h.filter _⟩)
    simp

theorem Operation.distinct {q q' : EventQueue κ} (h : Operation q q') (hq : Distinct q.events) :
    Distinct q'.events := by
  cases h with
  | schedule kind delay => exact hq.schedule kind delay
  | pop popped =>
    rw [events_popDue popped]
    exact hq.sublist ((List.tail_sublist _).map _)
  | clock now => exact hq
  | rebase =>
    show (q.rebase.2.events.map (·.kind)).Nodup
    rw [kinds_rebase]
    exact hq

omit [DecidableEq κ] in
/-- Without the event that was inserted, the events are those of before. -/
theorem filter_insert (p : Pending κ → Bool) {e : Pending κ} (events : List (Pending κ))
    (he : p e = false) : (insert e events).filter p = events.filter p := by
  unfold insert
  rw [List.filter_append, List.filter_cons_of_neg (by simp [he]), ← List.filter_append,
    List.takeWhile_append_dropWhile]

/-- Events of other kinds stay, in their order, when one of a kind is taken away. -/
theorem filter_remove (p : Pending κ → Bool) {kind : κ} (events : List (Pending κ))
    (hkind : ∀ e : Pending κ, e.kind = kind → p e = false) :
    (remove kind events).filter p = events.filter p := by
  have herase : ∀ rest : List (Pending κ),
      (rest.eraseP (·.kind == kind)).filter p = rest.filter p := by
    intro rest
    induction rest with
    | nil => rfl
    | cons e rest ih =>
      by_cases he : e.kind = kind
      · rw [List.eraseP_cons_of_pos (by simpa using he),
          List.filter_cons_of_neg (by simp [hkind e he])]
      · rw [List.eraseP_cons_of_neg (by simpa using he), List.filter_cons, List.filter_cons, ih]
  unfold remove
  rw [List.filter_reverse, herase, List.filter_reverse, List.reverse_reverse]

/-- Scheduling a kind leaves the events of other kinds alone, their times and their order. -/
theorem filter_schedule (q : EventQueue κ) (p : Pending κ → Bool) {kind : κ}
    (hkind : ∀ e : Pending κ, e.kind = kind → p e = false) (delay : Int64) :
    (q.schedule kind delay).events.filter p = q.events.filter p := by
  by_cases hrefuses : q.refuses kind = true
  · rw [schedule_of_refuses hrefuses]
  · rw [events_schedule (Bool.not_eq_true _ ▸ hrefuses),
      filter_insert p _ (hkind ⟨kind, q.dueTime delay⟩ rfl), filter_remove p _ hkind]

/-- Scheduling a kind anew takes back that it was scheduled before. -/
theorem schedule_schedule {q : EventQueue κ} (h : Distinct q.events) (kind : κ)
    (delay delay' : Int64) :
    (q.schedule kind delay).schedule kind delay' = q.schedule kind delay' := by
  by_cases hrefuses : q.refuses kind = true
  · rw [schedule_of_refuses hrefuses, schedule_of_refuses hrefuses]
  · rw [Bool.not_eq_true] at hrefuses
    have hevents := events_schedule hrefuses delay
    have hwaits : (q.schedule kind delay).refuses kind = false := by
      rw [← Bool.not_eq_true, refuses_iff]
      rintro ⟨hnone, -⟩
      refine hnone ⟨kind, q.dueTime delay⟩ ?_ rfl
      rw [hevents]
      exact (insert_perm _ _).mem_iff.mpr List.mem_cons_self
    have hremove : remove kind (q.schedule kind delay).events = remove kind q.events := by
      rw [remove_eq_filter (h.schedule kind delay), hevents, remove_eq_filter h,
        filter_insert _ _ (by simp)]
      exact List.filter_eq_self.mpr fun e he => (List.mem_filter.mp he).2
    rw [schedule, if_neg (by simp [hwaits]), hremove, now_schedule]
    rw [schedule, schedule, if_neg (by simp [hrefuses]), if_neg (by simp [hrefuses])]
    rfl

end Handheld.EventQueue
