import Mathlib
import Handheld.EventQueue

/-!
# Coherent event queues

What every operation keeps true of a queue, and what each operation then does:

* `EventQueue.Coherent`: the events are sorted by time, no kind waits twice, there are not more
  of them than fit, and the stored time of the next event is that of the first one;
* `schedule_events`, `popDue_eq_none_iff`, `popDue_eq_some_iff` and `rebase_events` describe the
  operations on a coherent queue;
* `Coherent.schedule`, `Coherent.popDue` and `Coherent.rebase` say that it stays one.

Times are compared as signed words. The section on clocks says when these words are the numbers
that they stand for.
-/

namespace Handheld

/-! ## Clocks -/

theorem toInt_toInt64 {t : UInt64} (h : t.toNat < 2 ^ 63) : t.toInt64.toInt = t.toNat := by
  have hbv : t.toInt64.toInt = t.toBitVec.toInt := rfl
  rw [hbv, BitVec.toInt_eq_toNat_of_lt]
  · rfl
  · show 2 * t.toNat < 2 ^ 64
    omega

theorem toNat_toUInt64 {t : Int64} (h : 0 ≤ t.toInt) : (t.toUInt64.toNat : Int) = t.toInt := by
  have hbv : t.toInt = t.toUInt64.toBitVec.toInt := rfl
  have hlt : t.toUInt64.toBitVec.toNat < 2 ^ 64 := t.toUInt64.toBitVec.isLt
  rw [hbv, BitVec.toInt_eq_toNat_cond] at h ⊢
  show (t.toUInt64.toBitVec.toNat : Int) = _
  split at h <;> omega

namespace EventQueue

theorem toInt_saturatingAdd (a b : Int64) :
    (saturatingAdd a b).toInt = max (-2 ^ 63) (min (2 ^ 63 - 1) (a.toInt + b.toInt)) := by
  have hmin : Int64.minValue.toInt = -2 ^ 63 := Int64.toInt_minValue
  have hmax : Int64.maxValue.toInt = 2 ^ 63 - 1 := Int64.toInt_maxValue
  rw [saturatingAdd, hmin, hmax, Int64.toInt_ofInt_of_le (by omega) (by omega)]

theorem toNat_clampTime (t : Int64) : ((clampTime t).toNat : Int) = max 0 t.toInt := by
  unfold clampTime
  by_cases h : t < 0
  · rw [if_pos h]
    rw [Int64.lt_iff_toInt_lt, Int64.toInt_zero] at h
    show (0 : Int) = _
    omega
  · rw [if_neg h]
    rw [Int64.lt_iff_toInt_lt, Int64.toInt_zero] at h
    rw [toNat_toUInt64 (by omega)]
    omega

theorem toNat_max (a b : UInt64) : (max a b).toNat = max a.toNat b.toNat := by
  show (if a ≤ b then b else a).toNat = _
  by_cases h : a ≤ b
  · rw [if_pos h]
    rw [UInt64.le_iff_toNat_le] at h
    omega
  · rw [if_neg h]
    rw [UInt64.le_iff_toNat_le] at h
    omega

variable {κ : Type}

/-! ## Lists of events -/

/-- Soonest first. -/
def Sorted (events : List (Pending κ)) : Prop := events.Pairwise fun a b => a.time ≤ b.time

/-- At most one event of a kind. -/
def Distinct (events : List (Pending κ)) : Prop := (events.map (·.kind)).Nodup

/-- In a sorted list the events from the first later one on are all later. -/
theorem lt_of_mem_dropWhile {events : List (Pending κ)} (h : Sorted events) {t : Int64}
    {e : Pending κ} (he : e ∈ events.dropWhile (·.time ≤ t)) : t < e.time := by
  induction events with
  | nil => simp at he
  | cons a events ih =>
    obtain ⟨hfirst, hrest⟩ := List.pairwise_cons.mp h
    by_cases ha : a.time ≤ t
    · rw [List.dropWhile_cons_of_pos (by simpa using ha)] at he
      exact ih hrest he
    · rw [List.dropWhile_cons_of_neg (by simpa using ha)] at he
      rw [Int64.not_le] at ha
      rcases List.mem_cons.mp he with rfl | hmem
      · exact ha
      · exact Int64.lt_of_lt_of_le ha (hfirst e hmem)

theorem le_of_mem_takeWhile {events : List (Pending κ)} {t : Int64} {e : Pending κ}
    (he : e ∈ events.takeWhile (·.time ≤ t)) : e.time ≤ t := by
  simpa using List.mem_takeWhile_imp he

theorem insert_perm (e : Pending κ) (events : List (Pending κ)) :
    (insert e events).Perm (e :: events) := by
  unfold insert
  refine List.perm_middle.trans ?_
  rw [List.takeWhile_append_dropWhile]

theorem Sorted.insert {events : List (Pending κ)} (h : Sorted events) (e : Pending κ) :
    Sorted (EventQueue.insert e events) := by
  -- The new event stands between the events that are not later and those that are.
  have hparts :
      Sorted (events.takeWhile (·.time ≤ e.time) ++ events.dropWhile (·.time ≤ e.time)) := by
    rwa [List.takeWhile_append_dropWhile]
  obtain ⟨hbefore, hafter, -⟩ := List.pairwise_append.mp hparts
  refine List.pairwise_append.mpr ⟨hbefore, List.pairwise_cons.mpr ⟨?_, hafter⟩, ?_⟩
  · intro b hb
    exact Int64.le_of_lt (lt_of_mem_dropWhile h hb)
  · intro a ha b hb
    have hae := le_of_mem_takeWhile ha
    rcases List.mem_cons.mp hb with rfl | hb
    · exact hae
    · exact Int64.le_trans hae (Int64.le_of_lt (lt_of_mem_dropWhile h hb))

variable [DecidableEq κ]

/-- An event of a kind is the only one of it. -/
theorem Distinct.filter_kind {events : List (Pending κ)} (h : Distinct events) {e : Pending κ}
    (he : e ∈ events) : events.filter (·.kind = e.kind) = [e] := by
  obtain ⟨before, after, rfl⟩ := List.append_of_mem he
  unfold Distinct at h
  rw [List.map_append, List.map_cons] at h
  obtain ⟨-, hafter, hdisjoint⟩ := List.nodup_append.mp h
  have hnobefore : before.filter (·.kind = e.kind) = [] := by
    apply List.filter_eq_nil_iff.mpr
    intro e' he' hkind
    exact hdisjoint e'.kind (List.mem_map_of_mem he') e.kind List.mem_cons_self
      (of_decide_eq_true hkind)
  have hnoafter : after.filter (·.kind = e.kind) = [] := by
    apply List.filter_eq_nil_iff.mpr
    intro e' he' hkind
    refine (List.nodup_cons.mp hafter).1 (List.mem_map.mpr ⟨e', he', of_decide_eq_true hkind⟩)
  rw [List.filter_append, hnobefore, List.nil_append, List.filter_cons_of_pos (by simp), hnoafter]

/-- With at most one event of a kind, taking the last one away takes all away. -/
theorem remove_eq_filter {events : List (Pending κ)} (h : Distinct events) (kind : κ) :
    remove kind events = events.filter (·.kind ≠ kind) := by
  -- The queue takes the last event of a kind away, which is the first one of the reversed list.
  have key : ∀ l : List (Pending κ), Distinct l →
      l.eraseP (·.kind == kind) = l.filter (·.kind ≠ kind) := by
    intro l hl
    induction l with
    | nil => rfl
    | cons a l ih =>
      obtain ⟨hfirst, hrest⟩ := List.nodup_cons.mp hl
      by_cases ha : a.kind = kind
      · rw [List.eraseP_cons_of_pos (by simpa using ha),
          List.filter_cons_of_neg (by simpa using ha)]
        symm
        rw [List.filter_eq_self]
        intro b hb
        have hne : b.kind ≠ a.kind := by
          intro e
          exact hfirst (List.mem_map.mpr ⟨b, hb, e⟩)
        simpa [ha] using hne
      · rw [List.eraseP_cons_of_neg (by simpa using ha),
          List.filter_cons_of_pos (by simpa using ha), ih hrest]
  have hrev : Distinct events.reverse := by
    unfold Distinct
    rw [List.map_reverse, List.nodup_reverse]
    exact h
  rw [remove, key _ hrev, List.filter_reverse, List.reverse_reverse]

/-! ## Coherent queues -/

/-- What every operation keeps true of a queue. -/
structure Coherent (q : EventQueue κ) : Prop where
  sorted : Sorted q.events
  distinct : Distinct q.events
  size_le : q.events.length ≤ capacity
  next_eq : q.next = (q.events.head?.map (·.time)).getD Int64.maxValue

omit [DecidableEq κ] in
theorem Coherent.empty : Coherent ({} : EventQueue κ) :=
  ⟨List.Pairwise.nil, List.nodup_nil, Nat.zero_le _, rfl⟩

omit [DecidableEq κ] in
/-- A queue whose clock alone has changed is as coherent as before. -/
theorem Coherent.withNow {q : EventQueue κ} (h : q.Coherent) (now : UInt64) :
    Coherent { q with now } := ⟨h.sorted, h.distinct, h.size_le, h.next_eq⟩

/-! ### Scheduling -/

theorem refuses_iff {q : EventQueue κ} {kind : κ} :
    q.refuses kind = true ↔ (∀ e ∈ q.events, e.kind ≠ kind) ∧ capacity ≤ q.events.length := by
  unfold refuses isScheduled size
  rw [Bool.and_eq_true, decide_eq_true_iff]
  simp

/-- The time at which an event is scheduled. -/
def dueTime (q : EventQueue κ) (delay : Int64) : Int64 := saturatingAdd q.now.toInt64 delay

omit [DecidableEq κ] in
/-- As long as the sum of the clock and the delay is a word, it is the time of the event. -/
theorem toInt_dueTime (q : EventQueue κ) {delay : Int64} (hnow : q.now.toNat < 2 ^ 63)
    (hlow : -2 ^ 63 ≤ q.now.toNat + delay.toInt) (hhigh : q.now.toNat + delay.toInt < 2 ^ 63) :
    (q.dueTime delay).toInt = q.now.toNat + delay.toInt := by
  rw [dueTime, toInt_saturatingAdd, toInt_toInt64 hnow]
  omega

theorem schedule_of_refuses {q : EventQueue κ} {kind : κ} (h : q.refuses kind = true)
    (delay : Int64) : q.schedule kind delay = q := by
  rw [schedule, if_pos h]

theorem schedule_events {q : EventQueue κ} (hq : q.Coherent) {kind : κ}
    (h : q.refuses kind = false) (delay : Int64) :
    (q.schedule kind delay).events =
      insert ⟨kind, q.dueTime delay⟩ (q.events.filter (·.kind ≠ kind)) := by
  rw [schedule, if_neg (by simp [h]), ← remove_eq_filter hq.distinct]
  rfl

@[simp] theorem now_schedule (q : EventQueue κ) (kind : κ) (delay : Int64) :
    (q.schedule kind delay).now = q.now := by
  unfold schedule
  split <;> rfl

/-- Scheduling a kind leaves the events of other kinds alone. -/
theorem mem_schedule {q : EventQueue κ} (hq : q.Coherent) {kind : κ} (h : q.refuses kind = false)
    (delay : Int64) (e : Pending κ) :
    e ∈ (q.schedule kind delay).events ↔
      e = ⟨kind, q.dueTime delay⟩ ∨ e ∈ q.events ∧ e.kind ≠ kind := by
  rw [schedule_events hq h, (insert_perm _ _).mem_iff]
  simp

omit [DecidableEq κ] in
/-- The events of a queue without some of them. -/
theorem Distinct.filter {events : List (Pending κ)} (h : Distinct events) (p : Pending κ → Bool) :
    Distinct (events.filter p) :=
  h.sublist (List.filter_sublist.map _)

theorem Coherent.schedule {q : EventQueue κ} (hq : q.Coherent) (kind : κ) (delay : Int64) :
    (q.schedule kind delay).Coherent := by
  by_cases hr : q.refuses kind = true
  · rwa [schedule_of_refuses hr]
  · rw [Bool.not_eq_true] at hr
    have hevents := schedule_events hq hr delay
    have hperm := insert_perm ⟨kind, q.dueTime delay⟩ (q.events.filter (·.kind ≠ kind))
    refine ⟨?_, ?_, ?_, ?_⟩
    · rw [hevents]
      exact Sorted.insert (hq.sorted.sublist List.filter_sublist) _
    · rw [hevents]
      refine ((hperm.map _).nodup_iff).mpr (List.nodup_cons.mpr ⟨?_, hq.distinct.filter _⟩)
      simp
    · rw [hevents, hperm.length_eq, List.length_cons]
      -- The event either is one more, for which there is room, or takes another one's place.
      by_cases hw : ∀ e ∈ q.events, e.kind ≠ kind
      · have hlt : ¬ capacity ≤ q.events.length := fun hfull => by
          rw [refuses_iff.mpr ⟨hw, hfull⟩] at hr
          cases hr
        have hle := List.length_filter_le (fun e : Pending κ => decide (e.kind ≠ kind)) q.events
        omega
      · have hlt : (q.events.filter (·.kind ≠ kind)).length < q.events.length := by
          rw [List.length_filter_lt_length_iff_exists]
          simpa using hw
        have hle := hq.size_le
        omega
    · rw [EventQueue.schedule, if_neg (by simp [hr])]
      rfl

/-! ### Taking events -/

omit [DecidableEq κ] in
theorem popDue_of_nil {q : EventQueue κ} (h : q.events = []) (target : UInt64) :
    q.popDue target = none := by
  unfold popDue
  rw [h]
  split <;> rfl

omit [DecidableEq κ] in
theorem popDue_of_cons {q : EventQueue κ} (hq : q.Coherent) {e : Pending κ}
    {rest : List (Pending κ)} (h : q.events = e :: rest) (target : UInt64) :
    q.popDue target =
      if target.toInt64 < e.time then none
      else
        some (⟨e.kind, (max q.now (clampTime e.time)).toInt64 - e.time⟩,
          { q with now := max q.now (clampTime e.time), events := rest }.refresh) := by
  -- The stored time is as good as the time of the first event.
  have hnext : q.next = e.time := by
    rw [hq.next_eq, h]
    rfl
  unfold popDue
  rw [hnext, h]

omit [DecidableEq κ] in
/-- Nothing is taken from a queue exactly if nothing in it is due. -/
theorem popDue_eq_none_iff {q : EventQueue κ} (hq : q.Coherent) (target : UInt64) :
    q.popDue target = none ↔ ∀ e ∈ q.events, target.toInt64 < e.time := by
  have hsorted := hq.sorted
  cases hevents : q.events with
  | nil => simp [popDue_of_nil hevents]
  | cons e rest =>
    rw [hevents] at hsorted
    rw [popDue_of_cons hq hevents]
    constructor
    · intro hnone
      have hlt : target.toInt64 < e.time := by
        by_contra hlt
        rw [if_neg hlt] at hnone
        cases hnone
      intro e' he'
      rcases List.mem_cons.mp he' with rfl | hmem
      · exact hlt
      · exact Int64.lt_of_lt_of_le hlt ((List.pairwise_cons.mp hsorted).1 e' hmem)
    · intro hall
      rw [if_pos (hall e List.mem_cons_self)]

omit [DecidableEq κ] in
/-- What is taken is the first event, if it is due. -/
theorem popDue_eq_some_iff {q : EventQueue κ} (hq : q.Coherent) (target : UInt64)
    (fired : Fired κ) (q' : EventQueue κ) :
    q.popDue target = some (fired, q') ↔
      ∃ e rest, q.events = e :: rest ∧ e.time ≤ target.toInt64 ∧
        fired = ⟨e.kind, (max q.now (clampTime e.time)).toInt64 - e.time⟩ ∧
        q' = { q with now := max q.now (clampTime e.time), events := rest }.refresh := by
  cases hevents : q.events with
  | nil => simp [popDue_of_nil hevents]
  | cons e rest =>
    rw [popDue_of_cons hq hevents]
    by_cases hlt : target.toInt64 < e.time
    · rw [if_pos hlt]
      constructor
      · intro h
        cases h
      · rintro ⟨e', rest', heq, hle, -⟩
        obtain ⟨rfl, rfl⟩ := List.cons.inj heq
        exact absurd hlt (Int64.not_lt.mpr hle)
    · rw [if_neg hlt]
      constructor
      · intro h
        obtain ⟨rfl, rfl⟩ := Prod.mk.inj (Option.some.inj h)
        exact ⟨e, rest, rfl, Int64.not_lt.mp hlt, rfl, rfl⟩
      · rintro ⟨e', rest', heq, -, rfl, rfl⟩
        obtain ⟨rfl, rfl⟩ := List.cons.inj heq
        rfl

omit [DecidableEq κ] in
theorem Coherent.popDue {q q' : EventQueue κ} (hq : q.Coherent) {target : UInt64}
    {fired : Fired κ} (h : q.popDue target = some (fired, q')) : q'.Coherent := by
  obtain ⟨e, rest, hevents, -, -, rfl⟩ := (popDue_eq_some_iff hq target fired q').mp h
  have hsorted := hq.sorted
  have hdistinct := hq.distinct
  have hsize := hq.size_le
  rw [hevents] at hsorted hdistinct hsize
  exact ⟨(List.pairwise_cons.mp hsorted).2, (List.nodup_cons.mp hdistinct).2,
    Nat.le_of_succ_le hsize, rfl⟩

omit [DecidableEq κ] in
/-- Taking an event moves the clock on, but not past the target. -/
theorem toNat_now_popDue {q q' : EventQueue κ} (hq : q.Coherent) {target : UInt64}
    {fired : Fired κ} (h : q.popDue target = some (fired, q')) :
    q.now.toNat ≤ q'.now.toNat ∧ q'.now.toNat ≤ max q.now.toNat target.toNat := by
  obtain ⟨e, rest, -, hdue, -, rfl⟩ := (popDue_eq_some_iff hq target fired q').mp h
  have hclamp := toNat_clampTime e.time
  have hmax := toNat_max q.now (clampTime e.time)
  show q.now.toNat ≤ (max q.now (clampTime e.time)).toNat ∧
    (max q.now (clampTime e.time)).toNat ≤ _
  have hle : e.time.toInt ≤ target.toNat := by
    rw [Int64.le_iff_toInt_le] at hdue
    -- A target that is too large for a signed word stands for a negative time.
    have htarget : target.toInt64.toInt ≤ target.toNat := by
      have hbv : target.toInt64.toInt = target.toBitVec.toInt := rfl
      rw [hbv, BitVec.toInt_eq_toNat_cond]
      show (if 2 * target.toNat < 2 ^ 64 then (target.toNat : Int) else _) ≤ (target.toNat : Int)
      split <;> omega
    omega
  omega

/-! ### Lowering the clock -/

omit [DecidableEq κ] in
theorem rebase_of_lt {q : EventQueue κ} (h : q.now < rebaseAt) : q.rebase = (0, q) := by
  rw [rebase, if_pos h]

omit [DecidableEq κ] in
theorem rebase_of_le {q : EventQueue κ} (h : ¬ q.now < rebaseAt) :
    q.rebase = (rebaseAt,
      { q with
        now := q.now - rebaseAt
        events := q.events.map (Pending.lower · rebaseAt.toInt64) }.refresh) := by
  rw [rebase, if_neg h]

/-- The queue with its clock and every event lowered. -/
def lowered (amount : UInt64) (q : EventQueue κ) : EventQueue κ :=
  { q with
    now := q.now - amount
    events := q.events.map (Pending.lower · amount.toInt64) }.refresh

omit [DecidableEq κ] in
theorem rebase_eq_lowered {q : EventQueue κ} (h : ¬ q.now < rebaseAt) :
    q.rebase = (rebaseAt, q.lowered rebaseAt) := rebase_of_le h

omit [DecidableEq κ] in
/-- The time of an event that lowering it does not carry out of range. -/
theorem toInt_lower {amount : UInt64} {e : Pending κ} (hamount : amount.toNat < 2 ^ 63)
    (h : -2 ^ 63 + (amount.toNat : ℤ) ≤ e.time.toInt) :
    (e.lower amount.toInt64).time.toInt = e.time.toInt - amount.toNat := by
  have hlt := e.time.toInt_lt
  show (e.time - amount.toInt64).toInt = _
  rw [Int64.toInt_sub, toInt_toInt64 hamount, Int.bmod_eq_of_le (by omega) (by omega)]

omit [DecidableEq κ] in
theorem toInt_time_lower {e : Pending κ} (h : -2 ^ 63 + 0xF0000000 ≤ e.time.toInt) :
    (e.lower rebaseAt.toInt64).time.toInt = e.time.toInt - 0xF0000000 :=
  @toInt_lower _ rebaseAt e (by decide) h

omit [DecidableEq κ] in
theorem Coherent.lowered {q : EventQueue κ} (hq : q.Coherent) {amount : UInt64}
    (hamount : amount.toNat < 2 ^ 63)
    (hrange : ∀ e ∈ q.events, -2 ^ 63 + (amount.toNat : ℤ) ≤ e.time.toInt) :
    (q.lowered amount).Coherent := by
  refine ⟨?_, ?_, ?_, rfl⟩
  -- No time leaves the range, so lowering all of them keeps their order.
  · refine List.pairwise_map.mpr (hq.sorted.imp_of_mem ?_)
    intro a b ha hb hab
    rw [Int64.le_iff_toInt_le, toInt_lower hamount (hrange a ha),
      toInt_lower hamount (hrange b hb)]
    rw [Int64.le_iff_toInt_le] at hab
    omega
  · show ((q.events.map (Pending.lower · amount.toInt64)).map (·.kind)).Nodup
    rw [List.map_map]
    exact hq.distinct
  · show (q.events.map (Pending.lower · amount.toInt64)).length ≤ capacity
    rw [List.length_map]
    exact hq.size_le

omit [DecidableEq κ] in
theorem Coherent.rebase {q : EventQueue κ} (hq : q.Coherent)
    (hrange : ∀ e ∈ q.events, -2 ^ 63 + 0xF0000000 ≤ e.time.toInt) : q.rebase.2.Coherent := by
  by_cases h : q.now < rebaseAt
  · rwa [rebase_of_lt h]
  · rw [rebase_eq_lowered h]
    exact hq.lowered (by decide) hrange

end EventQueue
end Handheld
