import Handheld.Checked.EventQueue
import Handheld.Proofs.Checked.Operators
import Handheld.Proofs.EventQueue.Lateness

/-!
# Event times with checked ranges

A queue that stops at a difference of times which leaves its range. Whatever a program has done with
it, delays of any size included, all numbers that it has given are exact, and only one thing can
stop it: that an event is taken which was scheduled with the least delay of all. Such an event is
late by more than a signed word can say.

* `popDue_of_checked`, `rebase_of_checked` and `advanceTo_of_checked` say that an operation which
  does not stop is the one without checks, `Timed.popDueChecked_eq_error_iff` and
  `Timed.rebaseChecked_eq` when the first two of them stop;
* `CheckedUsage` is what a program may do with a queue until it stops;
* `times_exact` is the statement for every use of a queue that was empty.
-/

namespace Handheld

namespace Checked

variable {a b c : Int64}

/-- A difference that is in range is exact. -/
theorem subSignedLong_eq_ok (h : subSignedLong a b = .ok c) :
    c = a - b ∧ c.toInt = a.toInt - b.toInt := by
  unfold subSignedLong within at h
  dsimp only at h
  split_ifs at h with hrange
  cases h
  exact ⟨rfl, by rw [Int64.toInt_sub, Int.bmod_eq_of_le hrange.1 hrange.2]⟩

theorem subSignedLong_eq_error_iff {fault : Fault} :
    subSignedLong a b = .error fault ↔ fault = .outOfRange ∧
      ¬ (-2 ^ 63 ≤ a.toInt - b.toInt ∧ a.toInt - b.toInt < 2 ^ 63) := by
  unfold subSignedLong within
  dsimp only
  split_ifs with hrange
  · exact ⟨nofun, fun h => absurd hrange h.2⟩
  · exact ⟨fun h => ⟨by cases h; rfl, hrange⟩, fun h => by rw [h.1]⟩

end Checked

namespace EventQueue

variable {κ : Type}

/-! ## Single operations -/

/-- Nothing is taken, or the first event is, for which is evaluated how late it is. -/
theorem popDueChecked_cases (q : EventQueue κ) (target : UInt64) :
    (q.popDue target = none ∧ q.popDueChecked target = .ok none) ∨
      ∃ e q', q.events.head? = some e ∧ q'.now = max q.now (clampTime e.time) ∧
        q.popDue target = some (⟨e.kind, q'.now.toInt64 - e.time⟩, q') ∧
        q.popDueChecked target = (do
          let lateBy ← Checked.subSignedLong q'.now.toInt64 e.time
          return some (⟨e.kind, lateBy⟩, q')) := by
  unfold popDueChecked popDue
  split_ifs
  · exact .inl ⟨rfl, rfl⟩
  · cases q.events with
    | nil => exact .inl ⟨rfl, rfl⟩
    | cons e rest =>
      let q' := { q with now := max q.now (clampTime e.time), events := rest }.refresh
      exact .inr ⟨e, q', rfl, rfl, rfl, rfl⟩

/-- What is taken with checks is what is taken without, and how late it is is exact. -/
theorem popDue_of_checked {q q' : EventQueue κ} {target : UInt64} {event : Fired κ}
    (h : q.popDueChecked target = .ok (some (event, q'))) :
    q.popDue target = some (event, q') ∧
      ∃ e, q.events.head? = some e ∧ event.kind = e.kind ∧
        q'.now = max q.now (clampTime e.time) ∧
        event.lateBy.toInt = q'.now.toInt64.toInt - e.time.toInt := by
  rcases q.popDueChecked_cases target with ⟨-, hchecked⟩ | ⟨e, rest, he, hnow, hpop, hchecked⟩
  · rw [hchecked] at h
    cases h
  · rw [hchecked] at h
    obtain ⟨lateBy, hlate, hpopped⟩ := Checked.bind_eq_ok h
    cases hpopped
    obtain ⟨rfl, hexact⟩ := Checked.subSignedLong_eq_ok hlate
    exact ⟨hpop, e, he, rfl, hnow, hexact⟩

theorem popDue_of_checked_none {q : EventQueue κ} {target : UInt64}
    (h : q.popDueChecked target = .ok none) : q.popDue target = none := by
  rcases q.popDueChecked_cases target with ⟨hpop, -⟩ | ⟨e, rest, -, -, -, hchecked⟩
  · exact hpop
  · rw [hchecked] at h
    obtain ⟨lateBy, -, hpopped⟩ := Checked.bind_eq_ok h
    cases hpopped

theorem lowerChecked_eq {amount : Int64} {events : List (Pending κ)}
    (h : ∀ e ∈ events, Checked.subSignedLong e.time amount = .ok (e.time - amount)) :
    lowerChecked amount events = .ok (events.map (Pending.lower · amount)) := by
  induction events with
  | nil => rfl
  | cons e events ih =>
    rw [lowerChecked, h e List.mem_cons_self, Checked.ok_bind,
      ih fun e' he' => h e' (List.mem_cons_of_mem e he')]
    rfl

/-- Lowering the clock does not stop the queue as long as no time is close to the least of all. -/
theorem rebaseChecked_of {q : EventQueue κ}
    (h : ¬ q.now < rebaseAt → ∀ e ∈ q.events, -2 ^ 63 + (rebaseAt.toNat : ℤ) ≤ e.time.toInt) :
    q.rebaseChecked = .ok q.rebase := by
  unfold rebaseChecked
  by_cases hlow : q.now < rebaseAt
  · rw [if_pos hlow, rebase_of_lt hlow]
    rfl
  · have hlower : ∀ e ∈ q.events, Checked.subSignedLong e.time rebaseAt.toInt64 =
        .ok (e.time - rebaseAt.toInt64) := by
      intro e he
      have hbias : rebaseAt.toInt64.toInt = rebaseAt.toNat := toInt_toInt64 (by decide)
      have hleast := h hlow e he
      have hmost := e.time.toInt_lt
      exact Checked.subSignedLong_eq (by omega) (by omega)
    rw [if_neg hlow, lowerChecked_eq hlower, rebase_of_le hlow]
    rfl

/-- Times that can be lowered with checks are lowered to what they are without. -/
theorem lower_of_checked {amount : Int64} {events lowered : List (Pending κ)}
    (h : lowerChecked amount events = .ok lowered) :
    lowered = events.map (Pending.lower · amount) := by
  induction events generalizing lowered with
  | nil =>
    cases h
    rfl
  | cons e events ih =>
    obtain ⟨time, htime, hcons⟩ := Checked.bind_eq_ok h
    obtain ⟨rest, hrest, hlowered⟩ := Checked.bind_eq_ok hcons
    cases hlowered
    rw [(Checked.subSignedLong_eq_ok htime).1, ih hrest]
    rfl

theorem rebase_of_checked {q : EventQueue κ} {r : UInt64 × EventQueue κ}
    (h : q.rebaseChecked = .ok r) : q.rebase = r := by
  unfold rebaseChecked at h
  by_cases hlow : q.now < rebaseAt
  · rw [if_pos hlow] at h
    rw [rebase_of_lt hlow]
    exact Except.ok.inj h
  · rw [if_neg hlow] at h
    obtain ⟨events, hevents, hqueue⟩ := Checked.bind_eq_ok h
    cases hqueue
    rw [rebase_of_le hlow, lower_of_checked hevents]

/-- Advancing the clock, if the handler does without checks what it does with them. -/
theorem advanceTo_of_checked {σ : Type}
    {handler : EventQueue κ → σ → Fired κ → EventQueue κ × σ}
    {handlerChecked : EventQueue κ → σ → Fired κ → Checked (EventQueue κ × σ)}
    (agrees : ∀ q s event r, handlerChecked q s event = .ok r → handler q s event = r)
    {target : UInt64} {fuel : ℕ} {q : EventQueue κ} {s : σ} {r : EventQueue κ × σ}
    (h : q.advanceToChecked handlerChecked target fuel s = .ok r) :
    q.advanceTo? handler target fuel s = some r := by
  induction fuel generalizing q s with
  | zero =>
    unfold advanceToChecked at h
    obtain ⟨first, hfirst, hrest⟩ := Checked.bind_eq_ok h
    cases first with
    | none =>
      rw [advanceTo?, popDue_of_checked_none hfirst]
      exact congrArg some (Except.ok.inj hrest)
    | some first => cases hrest
  | succ fuel ih =>
    unfold advanceToChecked at h
    obtain ⟨first, hfirst, hrest⟩ := Checked.bind_eq_ok h
    cases first with
    | none =>
      rw [advanceTo?, popDue_of_checked_none hfirst]
      exact congrArg some (Except.ok.inj hrest)
    | some first =>
      obtain ⟨event, rest⟩ := first
      obtain ⟨next, hnext, hrest⟩ := Checked.bind_eq_ok hrest
      rw [advanceTo?, (popDue_of_checked hfirst).1]
      dsimp only
      rw [agrees rest s event next hnext]
      exact ih hrest

variable [DecidableEq κ]

namespace Timed

variable {past : List (Action κ)} {q : EventQueue κ}

/-- An event stops the queue if it is due and was scheduled with the least delay of all. -/
theorem popDueChecked_eq_error_iff (h : Timed past q) {target : UInt64}
    (range : target.toNat < 2 ^ 62) (fault : Fault) :
    q.popDueChecked target = .error fault ↔
      fault = .outOfRange ∧ ∃ e, q.events.head? = some e ∧ e.time ≤ target.toInt64 ∧
        lastDelay e.kind past = some Int64.minValue := by
  have hmin : Int64.minValue.toInt = -2 ^ 63 := Int64.toInt_minValue
  rcases q.popDueChecked_cases target with ⟨hpop, hchecked⟩ | ⟨e, q', he, hnow, hpop, hchecked⟩
  · rw [hchecked]
    refine ⟨nofun, ?_⟩
    rintro ⟨-, e, he, hdue, -⟩
    have hlater := (popDue_eq_none_iff h.coherent target).mp hpop e (List.mem_of_head? he)
    exact absurd hdue (Int64.not_le.mpr hlater)
  · obtain ⟨e', rest, hevents, hdue, -, -⟩ :=
      (popDue_eq_some_iff h.coherent target _ q').mp hpop
    obtain rfl : e' = e := by
      rw [hevents] at he
      exact Option.some.inj he
    obtain ⟨delay, hlast, hlate⟩ := h.late_head he
    have hclock := h.popped_range range hpop
    have hleast := delay.le_toInt
    have hdelay : delay = Int64.minValue ↔ delay.toInt = -2 ^ 63 := by
      rw [← hmin, Int64.toInt_inj]
    rw [← hnow] at hlate
    have hrange : ¬ (-2 ^ 63 ≤ q'.now.toInt64.toInt - e'.time.toInt ∧
        q'.now.toInt64.toInt - e'.time.toInt < 2 ^ 63) ↔ delay = Int64.minValue := by
      rw [toInt_toInt64 (by omega), hlate, hdelay]
      omega
    rw [hchecked, Checked.bind_pure_eq_error_iff, Checked.subSignedLong_eq_error_iff, hrange]
    refine and_congr_right fun _ => ⟨?_, ?_⟩
    · rintro rfl
      exact ⟨e', he, hdue, hlast⟩
    · rintro ⟨e, he', -, hlast'⟩
      obtain rfl : e = e' := Option.some.inj (he'.symm.trans he)
      exact Option.some.inj (hlast.symm.trans hlast')

/-- Lowering the clock never stops the queue. -/
theorem rebaseChecked_eq (h : Timed past q) : q.rebaseChecked = .ok q.rebase :=
  rebaseChecked_of fun hlow _ he => h.lowers (rebaseAt_le hlow) he

end Timed

/-! ## Uses of a queue -/

/-- One thing that happens to a queue without stopping it, and what is seen of it. -/
inductive CheckedMove : EventQueue κ → Action κ → EventQueue κ → Prop
  | schedule (q : EventQueue κ) (kind : κ) (delay : Int64) :
    CheckedMove q (.schedule kind delay) (q.schedule kind delay)
  | pop {q q' : EventQueue κ} {target : UInt64} {event : Fired κ} (range : target.toNat < 2 ^ 62)
      (popped : q.popDueChecked target = .ok (some (event, q'))) :
      CheckedMove q (.pop target (some event)) q'
  | idle {q : EventQueue κ} {target : UInt64} (popped : q.popDueChecked target = .ok none) :
    CheckedMove q (.pop target none) q
  | pass {q : EventQueue κ} {target : UInt64} (range : target.toNat < 2 ^ 62)
      (popped : q.popDueChecked target = .ok none) :
      CheckedMove q (.pass target) { q with now := max q.now target }
  | rebase {q q' : EventQueue κ} {amount : UInt64} (lowered : q.rebaseChecked = .ok (amount, q')) :
    CheckedMove q (.rebase amount) q'

/-- The calls of the handler while the clock of a queue is advanced. -/
inductive CheckedInvoked {σ : Type}
    (handler : EventQueue κ → σ → Fired κ → Checked (EventQueue κ × σ)) (target : UInt64) :
    EventQueue κ → σ → EventQueue κ → σ → Fired κ → Prop
  | first {q q' : EventQueue κ} {s : σ} {event : Fired κ}
      (popped : q.popDueChecked target = .ok (some (event, q'))) :
      CheckedInvoked handler target q s q' s event
  | later {q q' q₁ q'' : EventQueue κ} {s s₁ s'' : σ} {event event'' : Fired κ}
      (popped : q.popDueChecked target = .ok (some (event, q')))
      (handled : handler q' s event = .ok (q₁, s₁))
      (rest : CheckedInvoked handler target q₁ s₁ q'' s'' event'') :
      CheckedInvoked handler target q s q'' s'' event''

/-- What is seen while the clock is advanced, up to where the queue stops, if `seen` tells what is
seen of the handler. -/
def advanceTraceChecked {σ : Type}
    (handler : EventQueue κ → σ → Fired κ → Checked (EventQueue κ × σ))
    (seen : EventQueue κ → σ → Fired κ → List (Action κ)) (target : UInt64) :
    ℕ → EventQueue κ → σ → List (Action κ)
  | fuel, q, s =>
    match q.popDueChecked target with
    | .error _ => []
    | .ok none => [.pass target]
    | .ok (some (event, q')) =>
      .pop target (some event) ::
        match fuel with
        | 0 => []
        | fuel + 1 =>
          seen q' s event ++
            match handler q' s event with
            | .error _ => []
            | .ok (q₁, s₁) => advanceTraceChecked handler seen target fuel q₁ s₁

/-- What a program may do with a queue, with any delay and with targets below `2 ^ 62`, and what
becomes of the queue. A handler may do anything that the program may. An advance is watched for as
long as its fuel lasts. -/
inductive CheckedUsage : EventQueue κ → List (Action κ) → Checked (EventQueue κ) → Prop
  | nil (q : EventQueue κ) : CheckedUsage q [] (.ok q)
  | append {q q' : EventQueue κ} {s t : List (Action κ)} {outcome : Checked (EventQueue κ)}
      (first : CheckedUsage q s (.ok q')) (second : CheckedUsage q' t outcome) :
      CheckedUsage q (s ++ t) outcome
  | move {q q' : EventQueue κ} {action : Action κ} (happened : CheckedMove q action q') :
    CheckedUsage q [action] (.ok q')
  | popStopped {q : EventQueue κ} {target : UInt64} {fault : Fault} (range : target.toNat < 2 ^ 62)
      (stopped : q.popDueChecked target = .error fault) : CheckedUsage q [] (.error fault)
  | rebaseStopped {q : EventQueue κ} {fault : Fault} (stopped : q.rebaseChecked = .error fault) :
    CheckedUsage q [] (.error fault)
  | advance {σ : Type} {handler : EventQueue κ → σ → Fired κ → Checked (EventQueue κ × σ)}
      {seen : EventQueue κ → σ → Fired κ → List (Action κ)} {target : UInt64} {fuel : ℕ}
      {q : EventQueue κ} {s : σ} (range : target.toNat < 2 ^ 62)
      (handled : ∀ q₁ s₁ event, CheckedInvoked handler target q s q₁ s₁ event →
        CheckedUsage q₁ (seen q₁ s₁ event) ((handler q₁ s₁ event).map (·.1))) :
      CheckedUsage q (advanceTraceChecked handler seen target fuel q s)
        ((q.advanceToChecked handler target fuel s).map (·.1))

/-! ## What a use comes to -/

/-- A use of a queue has made its moves. If it has come to an end before its own, then it was not
watched any longer, or the queue has stopped it. -/
def ComesTo (q : EventQueue κ) (trace : List (Action κ)) : Checked (EventQueue κ) → Prop
  | .ok q' => Moves CheckedMove q trace q'
  | .error fault => ∃ q', Moves CheckedMove q trace q' ∧
      (fault = .outOfFuel ∨
        (∃ target, target.toNat < 2 ^ 62 ∧ q'.popDueChecked target = .error fault) ∨
        q'.rebaseChecked = .error fault)

namespace ComesTo

theorem append {q q' : EventQueue κ} {s t : List (Action κ)} {outcome : Checked (EventQueue κ)}
    (h : Moves CheckedMove q s q') (h' : ComesTo q' t outcome) : ComesTo q (s ++ t) outcome := by
  cases outcome with
  | ok => exact Moves.append h h'
  | error fault =>
    obtain ⟨q'', hmoves, hfault⟩ := h'
    exact ⟨q'', h.append hmoves, hfault⟩

/-- Advancing the clock, if every call of the handler comes to what it should. -/
theorem advance {σ : Type} {handler : EventQueue κ → σ → Fired κ → Checked (EventQueue κ × σ)}
    {seen : EventQueue κ → σ → Fired κ → List (Action κ)} {target : UInt64} {fuel : ℕ}
    {q : EventQueue κ} {s : σ} (range : target.toNat < 2 ^ 62)
    (handled : ∀ q₁ s₁ event, CheckedInvoked handler target q s q₁ s₁ event →
      ComesTo q₁ (seen q₁ s₁ event) ((handler q₁ s₁ event).map (·.1))) :
    ComesTo q (advanceTraceChecked handler seen target fuel q s)
      ((q.advanceToChecked handler target fuel s).map (·.1)) := by
  induction fuel generalizing q s with
  | zero =>
    unfold advanceTraceChecked advanceToChecked
    cases popped : q.popDueChecked target with
    | error fault => exact ⟨q, .nil q, .inr (.inl ⟨target, range, popped⟩)⟩
    | ok first =>
      cases first with
      | none => exact Moves.single (.pass range popped)
      | some p => exact ⟨p.2, .single (.pop range popped), .inl rfl⟩
  | succ fuel ih =>
    unfold advanceTraceChecked advanceToChecked
    cases popped : q.popDueChecked target with
    | error fault => exact ⟨q, .nil q, .inr (.inl ⟨target, range, popped⟩)⟩
    | ok first =>
      cases first with
      | none => exact Moves.single (.pass range popped)
      | some p =>
        obtain ⟨event, rest⟩ := p
        have hpop : Moves CheckedMove q [.pop target (some event)] rest :=
          .single (.pop range popped)
        have hcall := handled rest s event (.first popped)
        dsimp only [Checked.ok_bind]
        cases hhandler : handler rest s event with
        | error fault =>
          rw [hhandler] at hcall
          dsimp only
          rw [List.append_nil]
          exact append hpop hcall
        | ok next =>
          obtain ⟨q₁, s₁⟩ := next
          rw [hhandler] at hcall
          exact append hpop (append hcall (ih fun q₂ s₂ event' hcalled =>
            handled q₂ s₂ event' (.later popped hhandler hcalled)))

end ComesTo

theorem CheckedUsage.comesTo {q : EventQueue κ} {trace : List (Action κ)}
    {outcome : Checked (EventQueue κ)} (h : CheckedUsage q trace outcome) :
    ComesTo q trace outcome := by
  induction h with
  | nil q => exact Moves.nil q
  | append _ _ ih₁ ih₂ => exact .append ih₁ ih₂
  | move happened => exact Moves.single happened
  | popStopped range stopped => exact ⟨_, .nil _, .inr (.inl ⟨_, range, stopped⟩)⟩
  | rebaseStopped stopped => exact ⟨_, .nil _, .inr (.inr stopped)⟩
  | advance range _ ih => exact .advance range ih

/-! ## Exact numbers -/

/-- What the numbers of a move say. An event reports how far the clock is past its time, which is by
as much as its delay was negative; and the clock and all times are lowered by the same amount. -/
def Exact (past : List (Action κ)) (q q' : EventQueue κ) : Action κ → Prop
  | .pop _ (some event) => ∃ e delay, q.events.head? = some e ∧ event.kind = e.kind ∧
      lastDelay e.kind past = some delay ∧
      event.lateBy.toInt = (q'.now.toNat : ℤ) - e.time.toInt ∧
      event.lateBy.toInt = max 0 (-delay.toInt)
  | .rebase amount => amount = (if q.now < rebaseAt then 0 else rebaseAt) ∧
      (q'.now.toNat : ℤ) = (q.now.toNat : ℤ) - amount.toNat ∧
      q'.events.map (fun e => (e.kind, e.time.toInt)) =
        q.events.map fun e => (e.kind, e.time.toInt - (amount.toNat : ℤ))
  | _ => True

namespace Timed

variable {past : List (Action κ)} {q q' : EventQueue κ}

/-- Every move that does not stop the queue is one without checks, and its numbers are exact. -/
theorem checkedMove (h : Timed past q) {action : Action κ} (hmove : CheckedMove q action q') :
    Move q action q' ∧ Exact past q q' action := by
  cases hmove with
  | schedule kind delay => exact ⟨.schedule q kind delay, trivial⟩
  | pop range popped =>
    obtain ⟨hpop, e, he, hkind, hnow, hlate⟩ := popDue_of_checked popped
    obtain ⟨delay, hlast, hdelay⟩ := h.late_head he
    have hrange := h.popped_range range hpop
    rw [toInt_toInt64 (by omega)] at hlate
    rw [← hnow] at hdelay
    exact ⟨.pop range hpop, e, delay, he, hkind, hlast, hlate, hlate.trans hdelay⟩
  | idle popped => exact ⟨.idle (popDue_of_checked_none popped), trivial⟩
  | pass range popped => exact ⟨.pass range (popDue_of_checked_none popped), trivial⟩
  | rebase lowered =>
    rw [h.rebaseChecked_eq] at lowered
    obtain ⟨hamount, hqueue⟩ := Prod.ext_iff.mp (Except.ok.inj lowered)
    obtain rfl : q.rebase.1 = _ := hamount
    obtain rfl : q.rebase.2 = _ := hqueue
    refine ⟨.rebase q, ?_, h.rebase_exact⟩
    unfold EventQueue.rebase
    split_ifs <;> rfl

theorem checkedMoves (h : Timed past q) {trace : List (Action κ)}
    (hmoves : Moves CheckedMove q trace q') : Timed (past ++ trace) q' := by
  induction hmoves generalizing past with
  | nil => rwa [List.append_nil]
  | @cons _ _ _ action trace first _ ih =>
    have hrest := ih (h.move (h.checkedMove first).1)
    rwa [List.append_assoc, List.singleton_append] at hrest

end Timed

/-- **Whatever a program does with a queue that was empty, all its numbers are exact.** Every event
that fires, be it in the middle of an advance, is the first one of the queue. The clock is past its
time by as much as the delay was negative with which it was last scheduled, and this is the
lateness that it reports. Lowering the clock lowers it and all times by exactly the amount that is
returned, and never leaves their range. Only taking an event does, and just if this event was
scheduled with the least delay of all: that is where a queue stops, and nowhere else. -/
theorem times_exact {trace : List (Action κ)} {outcome : Checked (EventQueue κ)}
    (h : CheckedUsage {} trace outcome) :
    (∀ before action after, trace = before ++ action :: after →
      ∃ q q', Moves CheckedMove {} before q ∧ CheckedMove q action q' ∧
        Exact before q q' action) ∧
    (∀ q, Moves CheckedMove {} trace q →
      q.rebaseChecked = .ok q.rebase ∧
      ∀ target, target.toNat < 2 ^ 62 →
        (q.popDueChecked target = .error .outOfRange ↔
          ∃ e, q.events.head? = some e ∧ e.time ≤ target.toInt64 ∧
            lastDelay e.kind trace = some Int64.minValue)) ∧
    (outcome = .error .outOfRange →
      ∃ q target, Moves CheckedMove {} trace q ∧ target.toNat < 2 ^ 62 ∧
        q.popDueChecked target = .error .outOfRange) := by
  have hcomes := h.comesTo
  have hreached : ∀ q, Moves CheckedMove {} trace q → Timed trace q :=
    fun q hmoves => Timed.empty.checkedMoves hmoves
  refine ⟨?_, ?_, ?_⟩
  · rintro before action after rfl
    -- Whether the use has stopped or not, its moves have been made.
    obtain ⟨last, hmoves⟩ : ∃ q, Moves CheckedMove {} (before ++ action :: after) q := by
      cases outcome with
      | ok q => exact ⟨q, hcomes⟩
      | error fault =>
        obtain ⟨q, hmoves, -⟩ := hcomes
        exact ⟨q, hmoves⟩
    obtain ⟨q, q', hbefore, hmove, -⟩ := hmoves.split
    exact ⟨q, q', hbefore, hmove, ((Timed.empty.checkedMoves hbefore).checkedMove hmove).2⟩
  · intro q hmoves
    refine ⟨(hreached q hmoves).rebaseChecked_eq, fun target range => ?_⟩
    rw [(hreached q hmoves).popDueChecked_eq_error_iff range]
    exact and_iff_right rfl
  · rintro rfl
    obtain ⟨q, hmoves, hfuel | ⟨target, range, hstopped⟩ | hstopped⟩ := hcomes
    · cases hfuel
    · exact ⟨q, target, hmoves, range, hstopped⟩
    · rw [(hreached q hmoves).rebaseChecked_eq] at hstopped
      cases hstopped

/-- An event that is scheduled as far back as can be is late by more than a signed word can say. -/
theorem times_exact_least :
    ∃ (q : EventQueue Unit) (target : UInt64),
      Moves CheckedMove {} [.schedule () Int64.minValue] q ∧ target.toNat < 2 ^ 62 ∧
        q.popDueChecked target = .error .outOfRange := by
  have hschedule : CheckedUsage ({} : EventQueue Unit) [.schedule () Int64.minValue]
      (.ok (schedule {} () Int64.minValue)) := .move (.schedule {} () Int64.minValue)
  have hpop : CheckedUsage (schedule ({} : EventQueue Unit) () Int64.minValue) []
      (.error .outOfRange) := .popStopped (show (0 : UInt64).toNat < 2 ^ 62 by decide) rfl
  exact (times_exact (hschedule.append hpop)).2.2 rfl

end EventQueue
end Handheld
