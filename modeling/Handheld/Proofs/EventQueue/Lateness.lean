import Mathlib
import Handheld.Proofs.EventQueue.Refinement

/-!
# How late events are

Delays of any size may be asked for, those that lie far back in time as well. While an event is
overdue the clock stands still, but for being lowered together with it. So an event is late by
exactly as much as its delay was negative, and lowering the clock carries no event out of its
range.

* `Usage` is what a program may do with a queue, `Moves` the same with each advance of the clock
  told by the events that it fires;
* `Timed` is the invariant, `Timed.move` says that every move keeps it;
* `Timed.late_head` and `Timed.rebase_exact` say what it means for the numbers of a queue.
-/

namespace Handheld.EventQueue

variable {κ : Type} [DecidableEq κ]

/-! ## Moves -/

/-- One thing that happens to a queue, and what is seen of it. -/
inductive Move : EventQueue κ → Action κ → EventQueue κ → Prop
  | schedule (q : EventQueue κ) (kind : κ) (delay : Int64) :
    Move q (.schedule kind delay) (q.schedule kind delay)
  | pop {q q' : EventQueue κ} {target : UInt64} {event : Fired κ} (range : target.toNat < 2 ^ 62)
      (popped : q.popDue target = some (event, q')) : Move q (.pop target (some event)) q'
  | idle {q : EventQueue κ} {target : UInt64} (popped : q.popDue target = none) :
    Move q (.pop target none) q
  | pass {q : EventQueue κ} {target : UInt64} (range : target.toNat < 2 ^ 62)
      (popped : q.popDue target = none) : Move q (.pass target) { q with now := max q.now target }
  | rebase (q : EventQueue κ) : Move q (.rebase q.rebase.1) q.rebase.2

/-- Several steps, one after the other. -/
inductive Moves (step : EventQueue κ → Action κ → EventQueue κ → Prop) :
    EventQueue κ → List (Action κ) → EventQueue κ → Prop
  | nil (q : EventQueue κ) : Moves step q [] q
  | cons {q q' q'' : EventQueue κ} {action : Action κ} {trace : List (Action κ)}
      (first : step q action q') (rest : Moves step q' trace q'') :
      Moves step q (action :: trace) q''

/-- What a program may do with a queue, with any delay and with targets below `2 ^ 62`. A handler
may do anything that the program may. -/
inductive Usage : EventQueue κ → List (Action κ) → EventQueue κ → Prop
  | nil (q : EventQueue κ) : Usage q [] q
  | append {q q' q'' : EventQueue κ} {s t : List (Action κ)} (first : Usage q s q')
      (second : Usage q' t q'') : Usage q (s ++ t) q''
  | schedule (q : EventQueue κ) (kind : κ) (delay : Int64) :
    Usage q [.schedule kind delay] (q.schedule kind delay)
  | pop {q q' : EventQueue κ} {target : UInt64} {event : Fired κ} (range : target.toNat < 2 ^ 62)
      (popped : q.popDue target = some (event, q')) : Usage q [.pop target (some event)] q'
  | idle {q : EventQueue κ} {target : UInt64} (popped : q.popDue target = none) :
    Usage q [.pop target none] q
  | rebase (q : EventQueue κ) : Usage q [.rebase q.rebase.1] q.rebase.2
  | advance {σ : Type} {handler : EventQueue κ → σ → Fired κ → EventQueue κ × σ}
      {seen : EventQueue κ → σ → Fired κ → List (Action κ)} {target : UInt64} {fuel : Nat}
      {q q' : EventQueue κ} {s s' : σ} (range : target.toNat < 2 ^ 62)
      (handled : ∀ q₁ s₁ event, Invoked handler target q s q₁ s₁ event →
        Usage q₁ (seen q₁ s₁ event) (handler q₁ s₁ event).1)
      (returned : q.advanceTo? handler target fuel s = some (q', s')) :
      Usage q (advanceTrace handler seen target fuel q s) q'

namespace Moves

variable {step : EventQueue κ → Action κ → EventQueue κ → Prop}

omit [DecidableEq κ]

theorem single {q q' : EventQueue κ} {action : Action κ} (h : step q action q') :
    Moves step q [action] q' := .cons h (.nil q')

theorem append {q q' q'' : EventQueue κ} {s t : List (Action κ)} (h : Moves step q s q')
    (h' : Moves step q' t q'') : Moves step q (s ++ t) q'' := by
  induction h with
  | nil => exact h'
  | cons first _ ih => exact .cons first (ih h')

/-- The queues before and after any one of the steps. -/
theorem split {q q' : EventQueue κ} {before after : List (Action κ)} {action : Action κ}
    (h : Moves step q (before ++ action :: after) q') :
    ∃ q₁ q₂, Moves step q before q₁ ∧ step q₁ action q₂ ∧ Moves step q₂ after q' := by
  induction before generalizing q with
  | nil =>
    cases h with
    | cons first rest => exact ⟨q, _, .nil q, first, rest⟩
  | cons a before ih =>
    cases h with
    | cons first rest =>
      obtain ⟨q₁, q₂, hbefore, haction, hafter⟩ := ih rest
      exact ⟨q₁, q₂, .cons first hbefore, haction, hafter⟩

end Moves

/-- Advancing the clock is a sequence of moves, if every call of the handler is one. -/
theorem Moves.advance {σ : Type} {handler : EventQueue κ → σ → Fired κ → EventQueue κ × σ}
    {seen : EventQueue κ → σ → Fired κ → List (Action κ)} {target : UInt64} {fuel : Nat}
    {q q' : EventQueue κ} {s s' : σ} (range : target.toNat < 2 ^ 62)
    (handled : ∀ q₁ s₁ event, Invoked handler target q s q₁ s₁ event →
      Moves Move q₁ (seen q₁ s₁ event) (handler q₁ s₁ event).1)
    (returned : q.advanceTo? handler target fuel s = some (q', s')) :
    Moves Move q (advanceTrace handler seen target fuel q s) q' := by
  induction fuel using Nat.strong_induction_on generalizing q s with
  | _ fuel ih =>
    rcases advance_inversion seen returned with ⟨hpop, rfl, htrace⟩ |
      ⟨left, event, q₁, rfl, hpop, hrest, htrace⟩
    · rw [htrace]
      exact .single (.pass range hpop)
    · have hhandler := handled q₁ s event (.first hpop)
      have hlater := ih left (Nat.lt_succ_self left)
        (fun q₂ s₂ e hcalled => handled q₂ s₂ e (.later hpop hcalled)) hrest
      rw [htrace]
      exact .cons (.pop range hpop) (hhandler.append hlater)

/-- Whatever a program does with a queue is a sequence of moves. -/
theorem Usage.moves {q q' : EventQueue κ} {trace : List (Action κ)} (h : Usage q trace q') :
    Moves Move q trace q' := by
  induction h with
  | nil q => exact .nil q
  | append _ _ ih₁ ih₂ => exact ih₁.append ih₂
  | schedule q kind delay => exact .single (.schedule q kind delay)
  | pop range popped => exact .single (.pop range popped)
  | idle popped => exact .single (.idle popped)
  | rebase q => exact .single (.rebase q)
  | advance range _ returned ih => exact .advance range ih returned

/-! ## The delay of an event that waits -/

/-- The delay with which a kind was last scheduled. -/
def lastDelay (kind : κ) (trace : List (Action κ)) : Option Int64 :=
  trace.foldl
    (fun last action =>
      match action with
      | .schedule k delay => if k = kind then some delay else last
      | _ => last)
    none

theorem lastDelay_schedule (kind k : κ) (delay : Int64) (trace : List (Action κ)) :
    lastDelay kind (trace ++ [.schedule k delay]) =
      if k = kind then some delay else lastDelay kind trace := by
  unfold lastDelay
  rw [List.foldl_append]
  rfl

/-- An event that was scheduled before the present is behind the clock by as much as its delay; any
other one is not behind it. -/
structure Placed (now : UInt64) (time delay : Int64) : Prop where
  behind : delay.toInt < 0 → time.toInt = now.toNat + delay.toInt
  ahead : 0 ≤ delay.toInt → (now.toNat : ℤ) ≤ time.toInt

namespace Placed

variable {now : UInt64} {time delay : Int64}

/-- No event is further behind the clock than a signed word can say. -/
theorem least_le (h : Placed now time delay) : (now.toNat : ℤ) - 2 ^ 63 ≤ time.toInt := by
  have hbehind := h.behind
  have hahead := h.ahead
  have hdelay := delay.le_toInt
  rcases lt_or_ge delay.toInt 0 with hneg | hpos
  · have htime := hbehind hneg
    omega
  · have htime := hahead hpos
    omega

/-- When an event is taken, the clock is past its time by as much as its delay was negative. -/
theorem late (h : Placed now time delay) :
    ((max now (clampTime time)).toNat : ℤ) - time.toInt = max 0 (-delay.toInt) := by
  have hclamp := toNat_clampTime time
  have hmax := toNat_max now (clampTime time)
  rcases lt_or_ge delay.toInt 0 with hneg | hpos
  · have htime := h.behind hneg
    omega
  · have htime := h.ahead hpos
    omega

/-- Lowering the clock and a time by the same amount. -/
theorem lower (h : Placed now time delay) {amount : UInt64} {time' : Int64}
    (hclock : amount.toNat ≤ now.toNat) (htime : time'.toInt = time.toInt - amount.toNat) :
    Placed (now - amount) time' delay := by
  have hnow : (now - amount).toNat = now.toNat - amount.toNat :=
    UInt64.toNat_sub_of_le _ _ (UInt64.le_iff_toNat_le.mpr hclock)
  constructor
  · intro hneg
    have hbehind := h.behind hneg
    omega
  · intro hpos
    have hahead := h.ahead hpos
    omega

/-- The clock may move on to a time that comes no later than the event's. -/
theorem forward (h : Placed now time delay) {t : UInt64}
    (hle : (t.toNat : ℤ) ≤ max (now.toNat : ℤ) time.toInt) : Placed (max now t) time delay := by
  have hmax := toNat_max now t
  constructor
  · intro hneg
    have htime := h.behind hneg
    omega
  · intro hpos
    have htime := h.ahead hpos
    omega

end Placed

/-- What every move keeps true of a queue: the clock is in range, and every event that waits is
where the delay puts it with which its kind was last scheduled. -/
structure Timed (past : List (Action κ)) (q : EventQueue κ) : Prop where
  coherent : q.Coherent
  range : q.now.toNat < 2 ^ 62
  placed : ∀ e ∈ q.events, ∃ delay, lastDelay e.kind past = some delay ∧ Placed q.now e.time delay

namespace Timed

variable {past : List (Action κ)} {q q' : EventQueue κ}

theorem empty : Timed [] ({} : EventQueue κ) where
  coherent := Coherent.empty
  range := by
    show (0 : ℕ) < 2 ^ 62
    norm_num
  placed := by simp

theorem least_le (h : Timed past q) {e : Pending κ} (he : e ∈ q.events) :
    (q.now.toNat : ℤ) - 2 ^ 63 ≤ e.time.toInt := by
  obtain ⟨delay, -, hplaced⟩ := h.placed e he
  exact hplaced.least_le

/-! ## What each move does -/

omit [DecidableEq κ] in
/-- An event is placed where its delay says when it is scheduled. A delay past the end of the
range ends there, which is still ahead of the clock. -/
theorem placed_dueTime {q : EventQueue κ} (hrange : q.now.toNat < 2 ^ 62) (delay : Int64) :
    Placed q.now (q.dueTime delay) delay := by
  have htime : (q.dueTime delay).toInt =
      max (-2 ^ 63) (min (2 ^ 63 - 1) (q.now.toNat + delay.toInt)) := by
    rw [dueTime, toInt_saturatingAdd, toInt_toInt64 (by omega)]
  have hdelay := delay.le_toInt
  constructor <;> omega

theorem schedule (h : Timed past q) (kind : κ) (delay : Int64) :
    Timed (past ++ [.schedule kind delay]) (q.schedule kind delay) := by
  refine ⟨h.coherent.schedule kind delay, by rw [now_schedule]; exact h.range, ?_⟩
  intro e he
  rw [now_schedule, lastDelay_schedule]
  by_cases hr : q.refuses kind = true
  · -- What is refused is of a kind that does not wait.
    rw [schedule_of_refuses hr] at he
    rw [if_neg fun hkind => (refuses_iff.mp hr).1 e he hkind.symm]
    exact h.placed e he
  · rw [Bool.not_eq_true] at hr
    rcases (mem_schedule h.coherent hr delay e).mp he with rfl | ⟨hold, hkind⟩
    · exact ⟨delay, if_pos rfl, placed_dueTime h.range delay⟩
    · rw [if_neg (Ne.symm hkind)]
      exact h.placed e hold

end Timed

/-- An action that schedules nothing leaves the delays as they are. -/
theorem lastDelay_snoc {past : List (Action κ)} {action : Action κ}
    (hother : ∀ kind delay, action ≠ .schedule kind delay) (kind : κ) :
    lastDelay kind (past ++ [action]) = lastDelay kind past := by
  unfold lastDelay
  rw [List.foldl_append]
  cases action with
  | schedule k delay => exact absurd rfl (hother k delay)
  | pop | pass | rebase => rfl

namespace Timed

variable {past : List (Action κ)} {q q' : EventQueue κ}

/-- When the first event is taken, the clock is past its time by as much as its delay was
negative. -/
theorem late_head (h : Timed past q) {e : Pending κ} (he : q.events.head? = some e) :
    ∃ delay, lastDelay e.kind past = some delay ∧
      ((max q.now (clampTime e.time)).toNat : ℤ) - e.time.toInt = max 0 (-delay.toInt) := by
  obtain ⟨delay, hlast, hplaced⟩ := h.placed e (List.mem_of_head? he)
  exact ⟨delay, hlast, hplaced.late⟩

/-- The clock stays in range when it moves on to an event. -/
theorem popped_range (h : Timed past q) {target : UInt64} (range : target.toNat < 2 ^ 62)
    {event : Fired κ} (popped : q.popDue target = some (event, q')) : q'.now.toNat < 2 ^ 62 := by
  obtain ⟨-, hbound⟩ := toNat_now_popDue h.coherent popped
  have hrange := h.range
  exact hbound.trans_lt (by omega)

/-- Taking an event: it is the first one, and the others stay in place. -/
theorem pop (h : Timed past q) {target : UInt64} (range : target.toNat < 2 ^ 62)
    {event : Fired κ} (popped : q.popDue target = some (event, q')) :
    Timed (past ++ [.pop target (some event)]) q' := by
  have hnow := h.popped_range range popped
  have hcoherent := h.coherent.popDue popped
  obtain ⟨e, rest, hevents, -, rfl, rfl⟩ :=
    (popDue_eq_some_iff h.coherent target event q').mp popped
  have hsorted := h.coherent.sorted
  have hplaced := h.placed
  rw [hevents] at hsorted hplaced
  refine ⟨hcoherent, hnow, ?_⟩
  intro e' he'
  obtain ⟨delay', hlast', hrest⟩ := hplaced e' (List.mem_cons_of_mem e he')
  refine ⟨delay', by rw [lastDelay_snoc nofun]; exact hlast', hrest.forward ?_⟩
  have hle := (List.pairwise_cons.mp hsorted).1 e' he'
  rw [Int64.le_iff_toInt_le] at hle
  have hclamp := toNat_clampTime e.time
  omega

/-- With nothing due up to the target, the clock moves on to it and passes no event. -/
theorem pass (h : Timed past q) {target : UInt64} (range : target.toNat < 2 ^ 62)
    (popped : q.popDue target = none) :
    Timed (past ++ [.pass target]) { q with now := max q.now target } := by
  have hnow := h.range
  have hmax := toNat_max q.now target
  refine ⟨h.coherent.withNow _, ?_, ?_⟩
  · show (max q.now target).toNat < 2 ^ 62
    omega
  · intro e he
    obtain ⟨delay, hlast, hplaced⟩ := h.placed e he
    refine ⟨delay, by rw [lastDelay_snoc nofun]; exact hlast, hplaced.forward ?_⟩
    have hlater := (popDue_eq_none_iff h.coherent target).mp popped e he
    rw [Int64.lt_iff_toInt_lt, toInt_toInt64 (by omega)] at hlater
    omega

/-- No time leaves its range when it is lowered, since none is further behind the clock than a
signed word can say. -/
theorem lowers (h : Timed past q) (hclock : rebaseAt.toNat ≤ q.now.toNat) {e : Pending κ}
    (he : e ∈ q.events) : -2 ^ 63 + (rebaseAt.toNat : ℤ) ≤ e.time.toInt := by
  have hleast := h.least_le he
  omega

omit [DecidableEq κ] in
theorem rebaseAt_le (hlow : ¬ q.now < rebaseAt) : rebaseAt.toNat ≤ q.now.toNat := by
  rw [UInt64.lt_iff_toNat_lt] at hlow
  omega

/-- The clock and all times are lowered by the same amount, which is the answer. -/
theorem rebase_exact (h : Timed past q) :
    (q.rebase.2.now.toNat : ℤ) = (q.now.toNat : ℤ) - q.rebase.1.toNat ∧
      q.rebase.2.events.map (fun e => (e.kind, e.time.toInt)) =
        q.events.map fun e => (e.kind, e.time.toInt - (q.rebase.1.toNat : ℤ)) := by
  by_cases hlow : q.now < rebaseAt
  · rw [rebase_of_lt hlow]
    exact ⟨by simp, by simp⟩
  have hclock := rebaseAt_le hlow
  have hnow : (q.now - rebaseAt).toNat = q.now.toNat - rebaseAt.toNat :=
    UInt64.toNat_sub_of_le _ _ (UInt64.le_iff_toNat_le.mpr hclock)
  rw [rebase_eq_lowered hlow]
  constructor
  · show ((q.now - rebaseAt).toNat : ℤ) = (q.now.toNat : ℤ) - rebaseAt.toNat
    omega
  · show (q.events.map (Pending.lower · rebaseAt.toInt64)).map _ = _
    rw [List.map_map]
    refine List.map_congr_left fun e he => ?_
    show (e.kind, (e.lower rebaseAt.toInt64).time.toInt) = _
    rw [toInt_lower (by decide) (h.lowers hclock he)]

/-- Lowering the clock and all times leaves every event where its delay puts it. -/
theorem rebase (h : Timed past q) : Timed (past ++ [.rebase q.rebase.1]) q.rebase.2 := by
  have hbias : rebaseAt.toNat = 0xF0000000 := rfl
  by_cases hlow : q.now < rebaseAt
  · rw [rebase_of_lt hlow]
    refine ⟨h.coherent, h.range, fun e he => ?_⟩
    rw [lastDelay_snoc nofun]
    exact h.placed e he
  have hclock := rebaseAt_le hlow
  have hnow : (q.now - rebaseAt).toNat = q.now.toNat - rebaseAt.toNat :=
    UInt64.toNat_sub_of_le _ _ (UInt64.le_iff_toNat_le.mpr hclock)
  rw [rebase_eq_lowered hlow]
  refine ⟨h.coherent.lowered (by decide) fun e he => h.lowers hclock he, ?_, ?_⟩
  · have hbelow := h.range
    show (q.now - rebaseAt).toNat < 2 ^ 62
    omega
  · intro e' he'
    obtain ⟨e, he, rfl⟩ := List.mem_map.mp he'
    obtain ⟨delay, hlast, hplaced⟩ := h.placed e he
    refine ⟨delay, by rw [lastDelay_snoc nofun]; exact hlast, hplaced.lower hclock ?_⟩
    exact toInt_lower (by decide) (h.lowers hclock he)

/-- Every move keeps the invariant. -/
theorem move (h : Timed past q) {action : Action κ} (hmove : Move q action q') :
    Timed (past ++ [action]) q' := by
  cases hmove with
  | schedule kind delay => exact h.schedule kind delay
  | pop range popped => exact h.pop range popped
  | @idle target popped =>
    refine ⟨h.coherent, h.range, fun e he => ?_⟩
    rw [lastDelay_snoc nofun]
    exact h.placed e he
  | pass range popped => exact h.pass range popped
  | rebase => exact h.rebase

theorem moves (h : Timed past q) {trace : List (Action κ)} (hmoves : Moves Move q trace q') :
    Timed (past ++ trace) q' := by
  induction hmoves generalizing past with
  | nil => rwa [List.append_nil]
  | @cons _ _ _ action trace first _ ih =>
    have hrest := ih (h.move first)
    rwa [List.append_assoc, List.singleton_append] at hrest

end Timed

end Handheld.EventQueue
