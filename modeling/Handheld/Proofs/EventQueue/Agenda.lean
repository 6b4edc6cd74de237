import Mathlib
import Handheld.EventQueue

/-!
# Agendas

What an event queue is for: a clock and a bag of events that wait, with times that are whole
numbers. Every scheduled event is numbered, and what has become of it is kept, so that an agenda
can say which of two events of one time comes first and that none is lost or handled twice.

An agenda moves in steps, each labelled by the `Action` that a user of the queue sees: what was
asked for and what was answered.
-/

namespace Handheld

/-- What a user of an event queue sees of one operation. -/
inductive Action (κ : Type) where
  | schedule (kind : κ) (delay : Int64)
  /-- Ask for an event due at or before `target`. -/
  | pop (target : UInt64) (answer : Option (Fired κ))
  /-- Find nothing left to fire up to `target`, and move the clock on to it. -/
  | pass (target : UInt64)
  /-- Lower the clock; the amount is the answer. -/
  | rebase (amount : UInt64)

/-- A scheduled event. The serial number counts the scheduled events. -/
@[ext]
structure Entry (κ : Type) where
  kind : κ
  time : ℤ
  serial : ℕ
  deriving DecidableEq

/-- The event with its time lowered. -/
def Entry.lower {κ : Type} (e : Entry κ) : Entry κ := { e with time := e.time - 0xF0000000 }

/-- A clock, the events that wait, and what has become of the others. -/
structure Agenda (κ : Type) where
  now : ℤ := 0
  pending : Multiset (Entry κ) := 0
  fired : Multiset (Entry κ) := 0
  replaced : Multiset (Entry κ) := 0
  /-- Number of events that were scheduled. -/
  serial : ℕ := 0

namespace Agenda

variable {κ : Type} [DecidableEq κ]

/-- Whether one event comes before another: by time, and of one time by number. -/
def Before (e e' : Entry κ) : Prop := e.time < e'.time ∨ e.time = e'.time ∧ e.serial < e'.serial

/-- The event that comes before all others. -/
def IsNext (a : Agenda κ) (e : Entry κ) : Prop :=
  e ∈ a.pending ∧ ∀ e' ∈ a.pending, e' ≠ e → Before e e'

/-- Whether as many other kinds wait as can. -/
def IsFullFor (a : Agenda κ) (kind : κ) : Prop :=
  (∀ e ∈ a.pending, e.kind ≠ kind) ∧ 32 ≤ a.pending.card

/-- The agenda with one more event, which takes the place of those of its kind. -/
def schedule (a : Agenda κ) (kind : κ) (delay : ℤ) : Agenda κ :=
  { a with
    pending := ⟨kind, a.now + delay, a.serial⟩ ::ₘ a.pending.filter (·.kind ≠ kind)
    replaced := a.replaced + a.pending.filter (·.kind = kind)
    serial := a.serial + 1 }

/-- The agenda after an event has fired. -/
def fire (a : Agenda κ) (e : Entry κ) : Agenda κ :=
  { a with now := max a.now e.time, pending := a.pending.erase e, fired := e ::ₘ a.fired }

/-- The agenda with its clock and all times lowered. -/
def lower (a : Agenda κ) : Agenda κ :=
  { a with now := a.now - 0xF0000000, pending := a.pending.map Entry.lower }

/-- How an agenda moves, and what is seen of it. -/
inductive Step : Agenda κ → Action κ → Agenda κ → Prop
  | schedule {a : Agenda κ} {kind : κ} {delay : Int64} (room : ¬ a.IsFullFor kind) :
    Step a (.schedule kind delay) (a.schedule kind delay.toInt)
  | refuse {a : Agenda κ} {kind : κ} {delay : Int64} (full : a.IsFullFor kind) :
    Step a (.schedule kind delay) a
  | fire {a : Agenda κ} {target : UInt64} {e : Entry κ} {fired : Fired κ} (next : a.IsNext e)
    (due : e.time ≤ target.toNat) (kind : fired.kind = e.kind)
    (late : fired.lateBy.toInt = max a.now e.time - e.time) :
    Step a (.pop target (some fired)) (a.fire e)
  | idle {a : Agenda κ} {target : UInt64} (later : ∀ e ∈ a.pending, target.toNat < e.time) :
    Step a (.pop target none) a
  | pass {a : Agenda κ} {target : UInt64} (later : ∀ e ∈ a.pending, target.toNat < e.time) :
    Step a (.pass target) { a with now := max a.now target.toNat }
  | stay {a : Agenda κ} (low : a.now < 0xF0000000) : Step a (.rebase 0) a
  | lower {a : Agenda κ} (high : 0xF0000000 ≤ a.now) : Step a (.rebase 0xF0000000) a.lower

/-- Several steps with what is seen of them. -/
inductive Steps : Agenda κ → List (Action κ) → Agenda κ → Prop
  | nil (a : Agenda κ) : Steps a [] a
  | cons {a b c : Agenda κ} {action : Action κ} {trace : List (Action κ)} :
    Step a action b → Steps b trace c → Steps a (action :: trace) c

theorem Steps.trans {a b c : Agenda κ} {s t : List (Action κ)} (h : Steps a s b)
    (h' : Steps b t c) : Steps a (s ++ t) c := by
  induction h with
  | nil => exact h'
  | cons step _ ih => exact .cons step (ih h')

theorem Step.steps {a b : Agenda κ} {action : Action κ} (h : Step a action b) :
    Steps a [action] b := .cons h (.nil b)

/-! ## What becomes of an event -/

/-- Every event that was ever scheduled is in one place: it waits, it has fired once, or another
one of its kind has taken its place. -/
def Accounted (a : Agenda κ) : Prop :=
  (a.fired + a.replaced + a.pending).map Entry.serial = Multiset.range a.serial

/-- At most one event of a kind waits. -/
def OnePerKind (a : Agenda κ) : Prop := (a.pending.map Entry.kind).Nodup

theorem Accounted.step {a b : Agenda κ} {action : Action κ} (ha : a.Accounted)
    (h : Step a action b) : b.Accounted := by
  unfold Accounted at ha ⊢
  cases h with
  | @schedule kind delay room =>
    have hsplit : a.pending.filter (·.kind = kind) + a.pending.filter (·.kind ≠ kind) = a.pending :=
      Multiset.filter_add_not _ _
    show (a.fired + (a.replaced + a.pending.filter (·.kind = kind)) +
      (⟨kind, a.now + delay.toInt, a.serial⟩ ::ₘ a.pending.filter (·.kind ≠ kind))).map _ =
        Multiset.range (a.serial + 1)
    rw [Multiset.range_succ, ← ha, Multiset.add_cons, Multiset.map_cons, ← Multiset.add_assoc,
      Multiset.add_assoc (a.fired + a.replaced), hsplit]
  | @fire target e fired next =>
    show ((e ::ₘ a.fired) + a.replaced + a.pending.erase e).map _ = _
    rw [Multiset.cons_add, Multiset.cons_add, ← Multiset.add_cons, Multiset.cons_erase next.1]
    exact ha
  | lower =>
    show (a.fired + a.replaced + a.pending.map Entry.lower).map _ = Multiset.range a.serial
    rw [← ha, Multiset.map_add, Multiset.map_add _ _ a.pending, Multiset.map_map]
    rfl
  | refuse | idle | pass | stay => exact ha

theorem OnePerKind.step {a b : Agenda κ} {action : Action κ} (ha : a.OnePerKind)
    (h : Step a action b) : b.OnePerKind := by
  unfold OnePerKind at ha ⊢
  cases h with
  | @schedule kind delay room =>
    show ((⟨kind, a.now + delay.toInt, a.serial⟩ ::ₘ a.pending.filter (·.kind ≠ kind)).map _).Nodup
    rw [Multiset.map_cons, Multiset.nodup_cons]
    refine ⟨?_, Multiset.nodup_of_le (Multiset.map_le_map (Multiset.filter_le _ _)) ha⟩
    simp
  | @fire target e fired next =>
    exact Multiset.nodup_of_le (Multiset.map_le_map (Multiset.erase_le _ _)) ha
  | lower =>
    show ((a.pending.map Entry.lower).map _).Nodup
    rw [Multiset.map_map]
    exact ha
  | refuse | idle | pass | stay => exact ha

/-- Over any run that starts from nothing every event is accounted for, and at most one of a kind
waits. -/
theorem Steps.invariant {a b : Agenda κ} {trace : List (Action κ)} (h : Steps a trace b)
    (ha : a.Accounted ∧ a.OnePerKind) : b.Accounted ∧ b.OnePerKind := by
  induction h with
  | nil => exact ha
  | cons step _ ih => exact ih ⟨ha.1.step step, ha.2.step step⟩

end Agenda
end Handheld
