import Mathlib
import Handheld.Proofs.EventQueue.Agenda
import Handheld.Proofs.EventQueue.Coherence

/-!
# A queue is an agenda

Every run of operations on an event queue, handlers that schedule more included, is a run of the
agenda with the same answers. `Represents` relates the two: the waiting events of the agenda, in
the order in which they will fire, are the events of the queue. Each operation has a lemma that
takes a represented agenda to a represented agenda; `Run.refines` puts them together over a run,
and `run_follows_agenda` starts it from nothing.

Delays and targets stay below `2 ^ 61`, so that the sum of a clock and a delay is far from the
ends of the range of 64-bit words.
-/

namespace Handheld

variable {κ : Type}

/-! ## Entries as events -/

/-- The event as it waits in a queue. -/
def Entry.pending (e : Entry κ) : Pending κ := ⟨e.kind, Int64.ofInt e.time⟩

/-- The list with one more entry, behind those that are not later. -/
def Entry.placedIn (e : Entry κ) (l : List (Entry κ)) : List (Entry κ) :=
  l.takeWhile (·.pending.time ≤ e.pending.time) ++
    e :: l.dropWhile (·.pending.time ≤ e.pending.time)

namespace Entry

theorem placedIn_perm (e : Entry κ) (l : List (Entry κ)) : (e.placedIn l).Perm (e :: l) := by
  unfold placedIn
  refine List.perm_middle.trans ?_
  rw [List.takeWhile_append_dropWhile]

/-- An event takes its place in a queue as its entry does in the list. -/
theorem insert_map_pending (e : Entry κ) (l : List (Entry κ)) :
    EventQueue.insert e.pending (l.map pending) = (e.placedIn l).map pending := by
  rw [EventQueue.insert, List.takeWhile_map, List.dropWhile_map, placedIn, List.map_append,
    List.map_cons]
  rfl

/-- An entry with a number of its own keeps a list in order: those in front of it have smaller
numbers, those behind it are later. -/
theorem ordered_placedIn {e : Entry κ} {l : List (Entry κ)} (hordered : l.Pairwise Agenda.Before)
    (hsorted : EventQueue.Sorted (l.map pending)) (hserial : ∀ b ∈ l, b.serial < e.serial)
    (htime : ∀ b ∈ l, b.pending.time.toInt = b.time) (hself : e.pending.time.toInt = e.time) :
    (e.placedIn l).Pairwise Agenda.Before := by
  have hparts : (l.takeWhile (·.pending.time ≤ e.pending.time) ++
      l.dropWhile (·.pending.time ≤ e.pending.time)).Pairwise Agenda.Before := by
    rwa [List.takeWhile_append_dropWhile]
  obtain ⟨hbefore, hafter, hboth⟩ := List.pairwise_append.mp hparts
  have hfirst : ∀ b ∈ l.takeWhile (·.pending.time ≤ e.pending.time), Agenda.Before b e := by
    intro b hb
    have hbl := (List.takeWhile_subset _) hb
    have hle : b.pending.time ≤ e.pending.time := by simpa using List.mem_takeWhile_imp hb
    rw [Int64.le_iff_toInt_le, htime b hbl, hself] at hle
    rcases Int.lt_or_eq_of_le hle with hlt | heq
    · exact .inl hlt
    · exact .inr ⟨heq, hserial b hbl⟩
  have hsecond : ∀ b ∈ l.dropWhile (·.pending.time ≤ e.pending.time), Agenda.Before e b := by
    intro b hb
    have hmem : b.pending ∈ (l.map pending).dropWhile (·.time ≤ e.pending.time) := by
      rw [List.dropWhile_map]
      exact List.mem_map_of_mem hb
    have hlt := EventQueue.lt_of_mem_dropWhile hsorted hmem
    rw [Int64.lt_iff_toInt_lt, htime b ((List.dropWhile_subset _) hb), hself] at hlt
    exact .inl hlt
  refine List.pairwise_append.mpr ⟨hbefore, List.pairwise_cons.mpr ⟨hsecond, hafter⟩, ?_⟩
  intro b hb c hc
  rcases List.mem_cons.mp hc with rfl | hc
  · exact hfirst b hb
  · exact hboth b hb c hc

end Entry

namespace EventQueue

/-! ## Representation -/

/-- The queue stands for the agenda, whose waiting events in order are those of the list. -/
structure Represents (q : EventQueue κ) (a : Agenda κ) (l : List (Entry κ)) : Prop where
  coherent : q.Coherent
  events : q.events = l.map Entry.pending
  pending : a.pending = l
  ordered : l.Pairwise Agenda.Before
  numbered : ∀ e ∈ l, e.serial < a.serial
  now : (q.now.toNat : ℤ) = a.now
  below : a.now < 2 ^ 61
  near : ∀ e ∈ l, a.now - 2 ^ 61 < e.time ∧ e.time < a.now + 2 ^ 61

namespace Represents

variable {q : EventQueue κ} {a : Agenda κ} {l : List (Entry κ)}

theorem empty : Represents ({} : EventQueue κ) ({} : Agenda κ) [] where
  coherent := Coherent.empty
  events := rfl
  pending := rfl
  ordered := List.Pairwise.nil
  numbered := by simp
  now := rfl
  below := by
    show (0 : ℤ) < 2 ^ 61
    norm_num
  near := by simp

theorem now_nonneg (h : Represents q a l) : 0 ≤ a.now := by
  rw [← h.now]
  omega

theorem toInt_ofInt_time {t : ℤ} (hlow : -2 ^ 62 ≤ t) (hhigh : t < 2 ^ 62) :
    (Int64.ofInt t).toInt = t :=
  Int64.toInt_ofInt_of_le (by omega) (by omega)

/-- The time of a represented event is the number that it stands for. -/
theorem toInt_pending_time (h : Represents q a l) {e : Entry κ} (he : e ∈ l) :
    e.pending.time.toInt = e.time := by
  have hnow := h.now_nonneg
  have hbelow := h.below
  obtain ⟨hlow, hhigh⟩ := h.near e he
  exact toInt_ofInt_time (by omega) (by omega)

theorem toInt_now (h : Represents q a l) : q.now.toInt64.toInt = a.now := by
  have hnow := h.now
  have hbelow := h.below
  rw [toInt_toInt64 (by omega), hnow]

theorem mem_pending (h : Represents q a l) {e : Entry κ} : e ∈ a.pending ↔ e ∈ l := by
  rw [h.pending, Multiset.mem_coe]

/-- The next event of the agenda is the first one of the list. -/
theorem isNext_iff (h : Represents q a l) (e : Entry κ) : a.IsNext e ↔ l.head? = some e := by
  cases l with
  | nil =>
    constructor
    · intro hnext
      exact absurd (h.mem_pending.mp hnext.1) List.not_mem_nil
    · intro hnone
      cases hnone
  | cons f rest =>
    have hfirst : ∀ b ∈ rest, Agenda.Before f b := (List.pairwise_cons.mp h.ordered).1
    constructor
    · intro hnext
      rcases List.mem_cons.mp (h.mem_pending.mp hnext.1) with rfl | hmem
      · rfl
      · -- Neither of two events can come before the other one.
        by_contra hne
        have hef := hnext.2 f (h.mem_pending.mpr List.mem_cons_self)
          (fun heq => hne (by rw [heq]; rfl))
        have hfe := hfirst e hmem
        unfold Agenda.Before at hef hfe
        omega
    · intro heq
      obtain rfl : f = e := Option.some.inj heq
      refine ⟨h.mem_pending.mpr List.mem_cons_self, ?_⟩
      intro b hb hne
      rcases List.mem_cons.mp (h.mem_pending.mp hb) with rfl | hmem
      · exact absurd rfl hne
      · exact hfirst b hmem

/-! ### Scheduling -/

/-- The time of an event that is scheduled is the sum of the clock and the delay. -/
theorem dueTime_eq (h : Represents q a l) {delay : Int64} (hlow : -2 ^ 61 < delay.toInt)
    (hhigh : delay.toInt < 2 ^ 61) : q.dueTime delay = Int64.ofInt (a.now + delay.toInt) := by
  have hnow := h.now_nonneg
  have hbelow := h.below
  have hclock := h.now
  rw [← Int64.toInt_inj, toInt_ofInt_time (by omega) (by omega), ← hclock]
  exact q.toInt_dueTime (by omega) (by omega) (by omega)

variable [DecidableEq κ]

/-- The agenda is full exactly if the queue is. -/
theorem isFullFor_iff (h : Represents q a l) (kind : κ) :
    a.IsFullFor kind ↔ q.refuses kind = true := by
  rw [refuses_iff, h.events, Agenda.IsFullFor, h.pending, List.length_map, Multiset.coe_card]
  simp only [Multiset.mem_coe, List.mem_map, forall_exists_index, and_imp,
    forall_apply_eq_imp_iff₂]
  rfl

theorem schedule (h : Represents q a l) (kind : κ) {delay : Int64} (hlow : -2 ^ 61 < delay.toInt)
    (hhigh : delay.toInt < 2 ^ 61) :
    ∃ a' l', Agenda.Step a (.schedule kind delay) a' ∧
      Represents (q.schedule kind delay) a' l' := by
  by_cases hr : q.refuses kind = true
  · refine ⟨a, l, .refuse ((h.isFullFor_iff kind).mpr hr), ?_⟩
    rwa [schedule_of_refuses hr]
  have hroom : ¬ a.IsFullFor kind := fun hfull => hr ((h.isFullFor_iff kind).mp hfull)
  rw [Bool.not_eq_true] at hr
  have hnow := h.now_nonneg
  have hbelow := h.below
  let e : Entry κ := ⟨kind, a.now + delay.toInt, a.serial⟩
  let kept := l.filter (·.kind ≠ kind)
  have hkept : ∀ b ∈ kept, b ∈ l := fun b hb => List.mem_of_mem_filter hb
  have hperm := e.placedIn_perm kept
  have hevents : (q.schedule kind delay).events = (e.placedIn kept).map Entry.pending := by
    have hpending : e.pending = ⟨kind, q.dueTime delay⟩ := by
      rw [h.dueTime_eq hlow hhigh]
      rfl
    rw [schedule_events h.coherent hr, h.events, List.filter_map, ← hpending]
    exact e.insert_map_pending kept
  -- The list that represents the new agenda is the one that the queue builds, event by event.
  refine ⟨a.schedule kind delay.toInt, e.placedIn kept, .schedule hroom,
    h.coherent.schedule kind delay, hevents, ?_, ?_, ?_, ?_, h.below, ?_⟩
  · rw [← Multiset.coe_eq_coe] at hperm
    rw [hperm, Agenda.schedule, h.pending, Multiset.filter_coe, ← Multiset.cons_coe]
  · have hsorted := h.coherent.sorted
    rw [h.events] at hsorted
    have hself : e.pending.time.toInt = e.time := by
      show (Int64.ofInt (a.now + delay.toInt)).toInt = a.now + delay.toInt
      exact toInt_ofInt_time (by omega) (by omega)
    exact Entry.ordered_placedIn (h.ordered.sublist List.filter_sublist)
      (hsorted.sublist (List.filter_sublist.map _)) (fun b hb => h.numbered b (hkept b hb))
      (fun b hb => h.toInt_pending_time (hkept b hb)) hself
  · intro b hb
    show b.serial < a.serial + 1
    rcases List.mem_cons.mp (hperm.mem_iff.mp hb) with rfl | hb
    · exact Nat.lt_succ_self _
    · exact Nat.lt_succ_of_lt (h.numbered b (hkept b hb))
  · rw [now_schedule]
    exact h.now
  · intro b hb
    show a.now - 2 ^ 61 < b.time ∧ b.time < a.now + 2 ^ 61
    rcases List.mem_cons.mp (hperm.mem_iff.mp hb) with rfl | hb
    · show a.now - 2 ^ 61 < a.now + delay.toInt ∧ a.now + delay.toInt < a.now + 2 ^ 61
      omega
    · exact h.near b (hkept b hb)

/-! ### Firing -/

omit [DecidableEq κ] in
/-- Whether a represented event is due. -/
theorem pending_time_le_iff (h : Represents q a l) {e : Entry κ} (he : e ∈ l) {target : UInt64}
    (hrange : target.toNat < 2 ^ 61) :
    e.pending.time ≤ target.toInt64 ↔ e.time ≤ target.toNat := by
  rw [Int64.le_iff_toInt_le, h.toInt_pending_time he, toInt_toInt64 (by omega)]

omit [DecidableEq κ] in
/-- Nothing is taken exactly if every event is later than the target. -/
theorem popDue_eq_none_iff (h : Represents q a l) {target : UInt64}
    (hrange : target.toNat < 2 ^ 61) :
    q.popDue target = none ↔ ∀ e ∈ a.pending, (target.toNat : ℤ) < e.time := by
  rw [EventQueue.popDue_eq_none_iff h.coherent, h.events]
  simp only [List.mem_map, forall_exists_index, and_imp, forall_apply_eq_imp_iff₂, h.mem_pending]
  apply forall_congr'
  intro e
  apply forall_congr'
  intro he
  rw [← Int64.not_le, h.pending_time_le_iff he hrange, Int.not_le]

theorem idle (h : Represents q a l) {target : UInt64} (hrange : target.toNat < 2 ^ 61)
    (hpop : q.popDue target = none) : Agenda.Step a (.pop target none) a :=
  .idle ((h.popDue_eq_none_iff hrange).mp hpop)

theorem pop (h : Represents q a l) {target : UInt64} (hrange : target.toNat < 2 ^ 61)
    {event : Fired κ} {q' : EventQueue κ} (hpop : q.popDue target = some (event, q')) :
    ∃ a' l', Agenda.Step a (.pop target (some event)) a' ∧ Represents q' a' l' := by
  obtain ⟨p, rest, hevents, hdue, rfl, rfl⟩ :=
    (popDue_eq_some_iff h.coherent target event q').mp hpop
  have hcoherent := h.coherent.popDue hpop
  have hl := h.events
  rw [hevents] at hl
  cases l with
  | nil => cases hl
  | cons e l =>
    obtain ⟨rfl, rfl⟩ := List.cons.inj hl
    have hnow := h.now
    have hnonneg := h.now_nonneg
    have hbelow := h.below
    have htime := h.toInt_pending_time List.mem_cons_self
    have hnear := h.near e List.mem_cons_self
    rw [h.pending_time_le_iff List.mem_cons_self hrange] at hdue
    -- A time before zero does not move the clock, which is never negative.
    have hclock : ((max q.now (clampTime e.pending.time)).toNat : ℤ) = max a.now e.time := by
      have hclamp := toNat_clampTime e.pending.time
      rw [toNat_max]
      omega
    have hlate : ((max q.now (clampTime e.pending.time)).toInt64 - e.pending.time).toInt =
        max a.now e.time - e.time := by
      rw [Int64.toInt_sub, toInt_toInt64 (by omega), hclock, htime,
        Int.bmod_eq_of_le (by omega) (by omega)]
    obtain ⟨hfirst, hordered⟩ := List.pairwise_cons.mp h.ordered
    refine ⟨a.fire e, l, .fire ((h.isNext_iff e).mpr rfl) hdue rfl hlate, hcoherent, rfl, ?_,
      hordered, ?_, hclock, ?_, ?_⟩
    · show a.pending.erase e = l
      rw [h.pending, ← Multiset.cons_coe, Multiset.erase_cons_head]
    · intro b hb
      exact h.numbered b (List.mem_cons_of_mem _ hb)
    · show max a.now e.time < 2 ^ 61
      omega
    · intro b hb
      have hb' := h.near b (List.mem_cons_of_mem _ hb)
      -- What still waits is not before the event that fired, which is all that its distance needs.
      have hle : e.time ≤ b.time := by
        rcases hfirst b hb with hlt | ⟨heq, -⟩ <;> omega
      show max a.now e.time - 2 ^ 61 < b.time ∧ b.time < max a.now e.time + 2 ^ 61
      omega

theorem pass (h : Represents q a l) {target : UInt64} (hrange : target.toNat < 2 ^ 61)
    (hpop : q.popDue target = none) :
    ∃ a', Agenda.Step a (.pass target) a' ∧
      Represents { q with now := max q.now target } a' l := by
  have hlater := (h.popDue_eq_none_iff hrange).mp hpop
  have hnow := h.now
  have hbelow := h.below
  refine ⟨_, .pass hlater, h.coherent.withNow _, h.events, h.pending, h.ordered, h.numbered, ?_,
    ?_, ?_⟩
  · show ((max q.now target).toNat : ℤ) = max a.now target.toNat
    rw [toNat_max]
    omega
  · show max a.now (target.toNat : ℤ) < 2 ^ 61
    omega
  · intro e he
    have hnear := h.near e he
    have hlt := hlater e (h.mem_pending.mpr he)
    show max a.now (target.toNat : ℤ) - 2 ^ 61 < e.time ∧
      e.time < max a.now (target.toNat : ℤ) + 2 ^ 61
    omega

/-! ### Lowering the clock -/

omit [DecidableEq κ] in
/-- Lowering an event is lowering its entry. -/
theorem pending_lower (h : Represents q a l) {e : Entry κ} (he : e ∈ l) :
    e.pending.lower rebaseAt.toInt64 = e.lower.pending := by
  have hnonneg := h.now_nonneg
  have hbelow := h.below
  have hnear := h.near e he
  have htime := h.toInt_pending_time he
  show (⟨e.kind, (e.pending.lower rebaseAt.toInt64).time⟩ : Pending κ) =
    ⟨e.kind, Int64.ofInt (e.time - 0xF0000000)⟩
  rw [Pending.mk.injEq, ← Int64.toInt_inj, toInt_time_lower (by omega), htime,
    toInt_ofInt_time (by omega) (by omega)]
  exact ⟨rfl, rfl⟩

omit [DecidableEq κ] in
/-- All entries are lowered alike, so their order stays. -/
theorem ordered_lower (h : l.Pairwise Agenda.Before) :
    (l.map Entry.lower).Pairwise Agenda.Before := by
  refine List.pairwise_map.mpr (h.imp ?_)
  intro b c hbc
  show b.time - 0xF0000000 < c.time - 0xF0000000 ∨
    b.time - 0xF0000000 = c.time - 0xF0000000 ∧ b.serial < c.serial
  rcases hbc with hlt | ⟨heq, hserial⟩
  · exact .inl (by omega)
  · exact .inr ⟨by omega, hserial⟩

theorem rebase (h : Represents q a l) :
    ∃ a' l', Agenda.Step a (.rebase q.rebase.1) a' ∧ Represents q.rebase.2 a' l' := by
  have hbias : rebaseAt.toNat = 0xF0000000 := rfl
  have hnow := h.now
  have hnonneg := h.now_nonneg
  have hbelow := h.below
  by_cases hlow : q.now < rebaseAt
  · rw [rebase_of_lt hlow]
    rw [UInt64.lt_iff_toNat_lt] at hlow
    exact ⟨a, l, .stay (by omega), h⟩
  · -- All events are near the clock, so lowering them carries none out of range.
    have hrange : ∀ p ∈ q.events, -2 ^ 63 + 0xF0000000 ≤ p.time.toInt := by
      rw [h.events]
      intro p hp
      obtain ⟨e, he, rfl⟩ := List.mem_map.mp hp
      have hnear := h.near e he
      rw [h.toInt_pending_time he]
      omega
    have hcoherent := h.coherent.rebase hrange
    rw [rebase_of_le hlow] at hcoherent ⊢
    rw [UInt64.lt_iff_toNat_lt] at hlow
    refine ⟨a.lower, l.map Entry.lower, .lower (by omega), hcoherent, ?_, ?_,
      ordered_lower h.ordered, ?_, ?_, ?_, ?_⟩
    · show q.events.map (Pending.lower · rebaseAt.toInt64) = (l.map Entry.lower).map Entry.pending
      rw [h.events, List.map_map, List.map_map]
      exact List.map_congr_left fun e he => h.pending_lower he
    · show a.pending.map Entry.lower = _
      rw [h.pending, Multiset.map_coe]
    · intro b hb
      obtain ⟨e, he, rfl⟩ := List.mem_map.mp hb
      exact h.numbered e he
    · show ((q.now - rebaseAt).toNat : ℤ) = a.now - 0xF0000000
      rw [UInt64.toNat_sub_of_le _ _ (UInt64.le_iff_toNat_le.mpr (by omega))]
      omega
    · show a.now - 0xF0000000 < 2 ^ 61
      omega
    · intro b hb
      obtain ⟨e, he, rfl⟩ := List.mem_map.mp hb
      have hnear := h.near e he
      show a.now - 0xF0000000 - 2 ^ 61 < e.time - 0xF0000000 ∧
        e.time - 0xF0000000 < a.now - 0xF0000000 + 2 ^ 61
      omega

end Represents

variable [DecidableEq κ]

/-! ## What a queue shows -/

/-- Every query on the queue gives the answer that the agenda has. -/
structure Shows (q : EventQueue κ) (a : Agenda κ) : Prop where
  now : (q.now.toNat : ℤ) = a.now
  size : q.size = a.pending.card
  isEmpty : q.isEmpty = true ↔ a.pending = 0
  isScheduled : ∀ kind, q.isScheduled kind = true ↔ ∃ e ∈ a.pending, e.kind = kind
  hasDue : q.hasDue = true ↔ ∃ e ∈ a.pending, e.time ≤ a.now
  nextKind? : ∀ kind, q.nextKind? = some kind ↔ ∃ e, a.IsNext e ∧ e.kind = kind
  nextTime? : ∀ t, q.nextTime? = some t ↔ ∃ e, a.IsNext e ∧ (t.toNat : ℤ) = max 0 e.time
  /-- Scheduling one kind too many changes nothing at all. -/
  full : ∀ kind delay, a.IsFullFor kind → q.schedule kind delay = q

theorem Represents.shows {q : EventQueue κ} {a : Agenda κ} {l : List (Entry κ)}
    (h : Represents q a l) : q.Shows a where
  now := h.now
  size := by rw [EventQueue.size, h.events, h.pending, List.length_map, Multiset.coe_card]
  isEmpty := by
    rw [EventQueue.isEmpty, h.events, h.pending, List.isEmpty_iff, List.map_eq_nil_iff,
      Multiset.coe_eq_zero]
  isScheduled kind := by
    rw [EventQueue.isScheduled, h.events, List.any_map, List.any_eq_true]
    simp only [h.mem_pending, Function.comp_apply, beq_iff_eq]
    rfl
  hasDue := by
    -- With nothing waiting, the stored time is the end of the range, which no clock reaches.
    have hnone := h.coherent.next_eq
    have hsorted := h.coherent.sorted
    have hnow := h.toInt_now
    have hbelow := h.below
    have hmax : Int64.maxValue.toInt = 2 ^ 63 - 1 := Int64.toInt_maxValue
    rw [EventQueue.hasDue, decide_eq_true_iff, Int64.le_iff_toInt_le, hnow, hnone]
    rw [h.events] at hsorted ⊢
    cases l with
    | nil =>
      show Int64.maxValue.toInt ≤ a.now ↔ _
      refine ⟨fun hle => by omega, ?_⟩
      rintro ⟨e, he, -⟩
      exact absurd (h.mem_pending.mp he) List.not_mem_nil
    | cons f rest =>
      have hf := h.toInt_pending_time (List.mem_cons_self (l := rest))
      show f.pending.time.toInt ≤ a.now ↔ _
      rw [hf]
      refine ⟨fun hle => ⟨f, h.mem_pending.mpr List.mem_cons_self, hle⟩, ?_⟩
      rintro ⟨e, he, hle⟩
      rcases List.mem_cons.mp (h.mem_pending.mp he) with rfl | hmem
      · exact hle
      · rcases (List.pairwise_cons.mp h.ordered).1 e hmem with hlt | ⟨heq, -⟩ <;> omega
  nextKind? kind := by
    simp only [h.isNext_iff]
    rw [EventQueue.nextKind?, h.events, List.head?_map, Option.map_map, Option.map_eq_some_iff]
    rfl
  nextTime? t := by
    simp only [h.isNext_iff]
    rw [EventQueue.nextTime?, h.events, List.head?_map, Option.map_map, Option.map_eq_some_iff]
    apply exists_congr
    intro e
    apply and_congr_right
    intro he
    have htime := h.toInt_pending_time (List.mem_of_head? he)
    have hclamp := toNat_clampTime e.pending.time
    rw [Function.comp_apply, ← UInt64.toNat_inj]
    omega
  full kind delay hfull := schedule_of_refuses ((h.isFullFor_iff kind).mp hfull) delay

/-! ## Runs -/

/-- The calls of the handler while the clock of a queue is advanced. -/
inductive Invoked {σ : Type} (handler : EventQueue κ → σ → Fired κ → EventQueue κ × σ)
    (target : UInt64) : EventQueue κ → σ → EventQueue κ → σ → Fired κ → Prop
  | first {q q' : EventQueue κ} {s : σ} {event : Fired κ}
      (popped : q.popDue target = some (event, q')) : Invoked handler target q s q' s event
  | later {q q' q'' : EventQueue κ} {s s'' : σ} {event event'' : Fired κ}
      (popped : q.popDue target = some (event, q'))
      (rest : Invoked handler target (handler q' s event).1 (handler q' s event).2
        q'' s'' event'') :
      Invoked handler target q s q'' s'' event''

/-- What is seen while the clock is advanced, if `seen` tells what is seen of the handler. -/
def advanceTrace {σ : Type} (handler : EventQueue κ → σ → Fired κ → EventQueue κ × σ)
    (seen : EventQueue κ → σ → Fired κ → List (Action κ)) (target : UInt64) :
    Nat → EventQueue κ → σ → List (Action κ)
  | fuel, q, s =>
    match q.popDue target with
    | none => [.pass target]
    | some (event, q') =>
      .pop target (some event) ::
        match fuel with
        | 0 => []
        | fuel + 1 =>
          seen q' s event ++
            advanceTrace handler seen target fuel (handler q' s event).1 (handler q' s event).2

/-- Runs of operations with what is seen of them. A handler may do anything that is itself such a
run. -/
inductive Run : EventQueue κ → List (Action κ) → EventQueue κ → Prop
  | nil (q : EventQueue κ) : Run q [] q
  | append {q q' q'' : EventQueue κ} {s t : List (Action κ)} (first : Run q s q')
      (second : Run q' t q'') : Run q (s ++ t) q''
  | schedule (q : EventQueue κ) (kind : κ) {delay : Int64} (low : -2 ^ 61 < delay.toInt)
      (high : delay.toInt < 2 ^ 61) : Run q [.schedule kind delay] (q.schedule kind delay)
  | pop {q q' : EventQueue κ} {target : UInt64} {event : Fired κ} (range : target.toNat < 2 ^ 61)
      (popped : q.popDue target = some (event, q')) : Run q [.pop target (some event)] q'
  | idle {q : EventQueue κ} {target : UInt64} (range : target.toNat < 2 ^ 61)
      (popped : q.popDue target = none) : Run q [.pop target none] q
  | rebase (q : EventQueue κ) : Run q [.rebase q.rebase.1] q.rebase.2
  | advance {σ : Type} {handler : EventQueue κ → σ → Fired κ → EventQueue κ × σ}
      {seen : EventQueue κ → σ → Fired κ → List (Action κ)} {target : UInt64} {fuel : Nat}
      {q q' : EventQueue κ} {s s' : σ} (range : target.toNat < 2 ^ 61)
      (handled : ∀ q₁ s₁ event, Invoked handler target q s q₁ s₁ event →
        Run q₁ (seen q₁ s₁ event) (handler q₁ s₁ event).1)
      (returned : q.advanceTo? handler target fuel s = some (q', s')) :
      Run q (advanceTrace handler seen target fuel q s) q'

/-- The queue that a handler is given is itself the end of a run, so that what holds of every run
holds there too. -/
theorem Invoked.run {σ : Type} {handler : EventQueue κ → σ → Fired κ → EventQueue κ × σ}
    {seen : EventQueue κ → σ → Fired κ → List (Action κ)} {target : UInt64}
    {q q₁ : EventQueue κ} {s s₁ : σ} {event : Fired κ} (range : target.toNat < 2 ^ 61)
    (h : Invoked handler target q s q₁ s₁ event)
    (handled : ∀ q₁ s₁ event, Invoked handler target q s q₁ s₁ event →
      Run q₁ (seen q₁ s₁ event) (handler q₁ s₁ event).1) :
    ∃ trace, Run q (trace ++ [.pop target (some event)]) q₁ := by
  induction h with
  | first popped => exact ⟨[], .pop range popped⟩
  | @later q q' _ s _ event _ popped rest ih =>
    obtain ⟨trace, hrun⟩ := ih fun q₁ s₁ e hcalled => handled q₁ s₁ e (.later popped hcalled)
    refine ⟨[.pop target (some event)] ++ (seen q' s event ++ trace), ?_⟩
    rw [List.append_assoc, List.append_assoc]
    exact .append (.pop range popped) (.append (handled q' s event (.first popped)) hrun)

omit [DecidableEq κ] in
/-- Either nothing is due and only the clock moves, or the first event fires, is handled, and the
rest follows. -/
theorem advance_inversion {σ : Type} {handler : EventQueue κ → σ → Fired κ → EventQueue κ × σ}
    (seen : EventQueue κ → σ → Fired κ → List (Action κ)) {target : UInt64} {fuel : Nat}
    {q q' : EventQueue κ} {s s' : σ} (h : q.advanceTo? handler target fuel s = some (q', s')) :
    (q.popDue target = none ∧ q' = { q with now := max q.now target } ∧
      advanceTrace handler seen target fuel q s = [.pass target]) ∨
    ∃ left event q₁, fuel = left + 1 ∧ q.popDue target = some (event, q₁) ∧
      let next := handler q₁ s event
      next.1.advanceTo? handler target left next.2 = some (q', s') ∧
      advanceTrace handler seen target fuel q s = .pop target (some event) ::
        (seen q₁ s event ++ advanceTrace handler seen target left next.1 next.2) := by
  unfold advanceTo? at h
  cases hpop : q.popDue target with
  | none =>
    rw [hpop] at h
    obtain ⟨rfl, rfl⟩ := Prod.mk.inj (Option.some.inj h)
    refine .inl ⟨rfl, rfl, ?_⟩
    rw [advanceTrace, hpop]
  | some popped =>
    rw [hpop] at h
    cases fuel with
    | zero => cases h
    | succ left =>
      refine .inr ⟨left, popped.1, popped.2, rfl, rfl, h, ?_⟩
      rw [advanceTrace, hpop]

/-- Advancing the clock is a run of the agenda, if every call of the handler is one. -/
theorem Represents.advance {σ : Type} {handler : EventQueue κ → σ → Fired κ → EventQueue κ × σ}
    {seen : EventQueue κ → σ → Fired κ → List (Action κ)} {target : UInt64}
    (range : target.toNat < 2 ^ 61) {fuel : Nat} {q q' : EventQueue κ} {s s' : σ} {a : Agenda κ}
    {l : List (Entry κ)} (h : Represents q a l)
    (handled : ∀ q₁ s₁ event, Invoked handler target q s q₁ s₁ event →
      ∀ {a₁ l₁}, Represents q₁ a₁ l₁ →
        ∃ a' l', Agenda.Steps a₁ (seen q₁ s₁ event) a' ∧ Represents (handler q₁ s₁ event).1 a' l')
    (returned : q.advanceTo? handler target fuel s = some (q', s')) :
    ∃ a' l', Agenda.Steps a (advanceTrace handler seen target fuel q s) a' ∧
      Represents q' a' l' := by
  -- The handler may have scheduled anything, so the induction is over all queues and agendas.
  induction fuel using Nat.strong_induction_on generalizing q s a l with
  | _ fuel ih =>
    rcases advance_inversion seen returned with ⟨hpop, rfl, htrace⟩ |
      ⟨left, event, q₁, rfl, hpop, hrest, htrace⟩
    · obtain ⟨a', hstep, h'⟩ := h.pass range hpop
      rw [htrace]
      exact ⟨a', l, hstep.steps, h'⟩
    · obtain ⟨a₁, l₁, hfire, h₁⟩ := h.pop range hpop
      obtain ⟨a₂, l₂, hseen, h₂⟩ := handled q₁ s event (.first hpop) h₁
      obtain ⟨a₃, l₃, hrun, h₃⟩ := ih left (Nat.lt_succ_self left) h₂
        (fun q₂ s₂ e hcalled => handled q₂ s₂ e (.later hpop hcalled)) hrest
      rw [htrace]
      exact ⟨a₃, l₃, .cons hfire (hseen.trans hrun), h₃⟩

/-- Every run of a queue is a run of the agenda that it represents. -/
theorem Run.refines {q q' : EventQueue κ} {trace : List (Action κ)} (hrun : Run q trace q')
    {a : Agenda κ} {l : List (Entry κ)} (h : Represents q a l) :
    ∃ a' l', Agenda.Steps a trace a' ∧ Represents q' a' l' := by
  induction hrun generalizing a l with
  | nil => exact ⟨a, l, .nil a, h⟩
  | append _ _ ih₁ ih₂ =>
    obtain ⟨a₁, l₁, hfirst, h₁⟩ := ih₁ h
    obtain ⟨a₂, l₂, hsecond, h₂⟩ := ih₂ h₁
    exact ⟨a₂, l₂, hfirst.trans hsecond, h₂⟩
  | schedule q kind low high =>
    obtain ⟨a', l', hstep, h'⟩ := h.schedule kind low high
    exact ⟨a', l', hstep.steps, h'⟩
  | pop range popped =>
    obtain ⟨a', l', hstep, h'⟩ := h.pop range popped
    exact ⟨a', l', hstep.steps, h'⟩
  | idle range popped => exact ⟨a, l, (h.idle range popped).steps, h⟩
  | rebase q =>
    obtain ⟨a', l', hstep, h'⟩ := h.rebase
    exact ⟨a', l', hstep.steps, h'⟩
  | advance range _ returned ih =>
    exact h.advance range (fun q₁ s₁ e hc _ _ => ih q₁ s₁ e hc) returned

/-- A run that starts from an empty queue is a run of the empty agenda with the same answers.
Throughout, at most one event of a kind waits, every event ever scheduled waits, has fired once or
has been replaced, and the queue answers each question as the agenda does. -/
theorem run_follows_agenda {q : EventQueue κ} {trace : List (Action κ)} (hrun : Run {} trace q) :
    ∃ a : Agenda κ, Agenda.Steps {} trace a ∧ a.OnePerKind ∧ a.Accounted ∧ q.Shows a := by
  obtain ⟨a, l, hsteps, h⟩ := hrun.refines Represents.empty
  have hinvariant := hsteps.invariant ⟨rfl, Multiset.nodup_zero⟩
  exact ⟨a, hsteps, hinvariant.2, hinvariant.1, h.shows⟩

/-- A handler that answers the first of two kinds with the second one, and counts its calls. -/
def relay (q : EventQueue Bool) (calls : Nat) (event : Fired Bool) : EventQueue Bool × Nat :=
  (if event.kind then q else q.schedule true 2, calls + 1)

theorem relay_follows_agenda :
    ∃ a : Agenda Bool,
      Agenda.Steps {} [.schedule false 5, .pop 10 (some ⟨false, 0⟩), .schedule true 2,
        .pop 10 (some ⟨true, 0⟩), .pass 10] a ∧
      a.OnePerKind ∧ a.Accounted ∧ Shows { now := 10 } a := by
  let seen : EventQueue Bool → Nat → Fired Bool → List (Action Bool) :=
    fun _ _ event => if event.kind then [] else [.schedule true 2]
  have hstart : Run ({} : EventQueue Bool) [.schedule false 5] (schedule {} false 5) :=
    .schedule {} false (by decide) (by decide)
  have hadvance : Run (schedule {} false 5) (advanceTrace relay seen 10 2 (schedule {} false 5) 0)
      { now := 10 } := by
    have hreturns : (schedule {} false 5).advanceTo? relay 10 2 0 = some ({ now := 10 }, 2) := rfl
    refine .advance (by decide) (fun q₁ calls event _ => ?_) hreturns
    by_cases h : event.kind = true
    · simp only [seen, relay, if_pos h]
      exact .nil q₁
    · simp only [seen, relay, if_neg h]
      exact .schedule q₁ true (by decide) (by decide)
  exact run_follows_agenda (hstart.append hadvance)

end EventQueue
end Handheld
