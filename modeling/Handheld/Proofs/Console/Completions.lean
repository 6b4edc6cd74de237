import Handheld.Proofs.Console.Chronicles
import Handheld.Proofs.Console.MathUnits

/-!
# What the math units wait for

A math unit is busy from a write to one of its input registers until the event of its completion
fires. So it is busy as long as that event waits, and the event is due a latency after the last
such write: `MathUnit.punctual`.
-/

namespace Handheld.Console

open Happening (loweredBy)
open Word

/-! ## Events of one kind -/

namespace System

variable {s : System} {kind : Event} {e : Pending Event}

/-- Scheduling an event leaves those of other kinds alone. -/
theorem Sound.mem_schedule_other (h : s.Sound) {event : Event} (hevent : event ≠ kind)
    (delay : Int64) (hkind : e.kind = kind) :
    e ∈ (s.queue.schedule event delay).events ↔ e ∈ s.queue.events := by
  rw [EventQueue.mem_schedule h.coherent (h.room event)]
  constructor
  · rintro (rfl | ⟨he, -⟩)
    · exact absurd hkind hevent
    · exact he
  · exact fun he => .inr ⟨he, fun heq => hevent (heq.symm.trans hkind)⟩

/-- Taking an event takes all of its kind, as there are no two of one kind. -/
theorem Sound.mem_popDue (h : s.Sound) {target : UInt64} {event : Fired Event}
    {queue : EventQueue Event} (hpop : s.queue.popDue target = some (event, queue)) :
    e ∈ queue.events ↔ e ∈ s.queue.events ∧ e.kind ≠ event.kind := by
  obtain ⟨first, rest, hevents, -, rfl, rfl⟩ :=
    (EventQueue.popDue_eq_some_iff h.coherent target event queue).mp hpop
  have hdistinct := h.coherent.distinct
  rw [hevents] at hdistinct ⊢
  have hnone : ∀ e ∈ rest, e.kind ≠ first.kind := fun e he hkind =>
    (List.nodup_cons.mp hdistinct).1 (List.mem_map.mpr ⟨e, he, hkind⟩)
  show e ∈ rest ↔ e ∈ first :: rest ∧ e.kind ≠ first.kind
  rw [List.mem_cons]
  constructor
  · exact fun he => ⟨.inr he, hnone e he⟩
  · rintro ⟨rfl | he, hkind⟩
    · exact absurd rfl hkind
    · exact he

/-- Handling an event schedules an overflow at most. -/
theorem queue_dispatch_overflow (s : System) (event : Fired Event) (log : Log) :
    (s.dispatch event log).1.queue = s.queue ∨
    ∃ p i delay, (s.dispatch event log).1.queue = s.queue.schedule (overflowEvent p i) delay := by
  rcases s.dispatch_cases event log with ⟨hqueue, -⟩ | ⟨p, i, -, hcounts, hsystem⟩
  · exact .inl hqueue
  · rw [hsystem, onTimerOverflow_of_countsTime _ _ _ _ _ hcounts]
    exact .inr ⟨p, i, _, rfl⟩

end System

/-! ## The units -/

/-- The two units that take time to compute. -/
inductive MathUnit where
  | divider | squareRoot
  deriving DecidableEq

namespace MathUnit

/-- The event of a unit's completion. -/
def event : MathUnit → Event
  | divider => .divisionDone
  | squareRoot => .squareRootDone

/-- The registers from which a unit computes, its control register among them. -/
def inputs : MathUnit → List IoRegister
  | divider => IoRegister.divisionInputs
  | squareRoot => IoRegister.squareRootInputs

/-- The busy bit of a unit. -/
def isBusy (s : System) : MathUnit → Bool
  | divider => s.divider.isBusy
  | squareRoot => s.squareRoot.isBusy

/-- Cycles that a unit takes, which for a division depend on its mode. -/
def latency (s : System) : MathUnit → ℕ
  | divider => if s.divider.mode = .bits32By32 then 18 else 34
  | squareRoot => 13

/-- Whether the entry is a write that starts the unit. -/
def startedBy (u : MathUnit) : Happening → Prop
  | .wrote _ r _ _ => r ∈ u.inputs
  | .fired .. | .lowered _ => False

variable {u : MathUnit} {s s' : System} {t : List Happening}

theorem event_ne_overflow (u : MathUnit) (p : Processor) (i : Fin 4) :
    System.overflowEvent p i ≠ u.event := by
  cases u <;> nofun

theorem event_ne_pause (u : MathUnit) : Event.pause ≠ u.event := by
  cases u <;> nofun

theorem latency_le (u : MathUnit) (s : System) : u.latency s ≤ 34 := by
  cases u with
  | divider =>
    show (if _ then 18 else 34) ≤ 34
    split <;> omega
  | squareRoot => exact Nat.le_of_ble_eq_true rfl

/-! ### Starting and stopping -/

theorem isBusy_congr (hdivider : s'.divider = s.divider) (hroot : s'.squareRoot = s.squareRoot) :
    u.isBusy s' = u.isBusy s := by
  cases u with
  | divider => exact congrArg Divider.isBusy hdivider
  | squareRoot => exact congrArg SquareRoot.isBusy hroot

/-- Bit 15 of a control register is the busy bit, whatever else is in it. -/
theorem isBit_setBit_busy (control : UInt16) (busy : Bool) :
    isBit (setBit control 15 busy) 15 = busy := by
  rw [isBit16_eq_testBit _ (by decide), testBit_setBit16 _ _ (by decide) (by decide), if_pos rfl]

theorem toInt_latency (d : Divider) :
    d.latency.toInt = ((if d.mode = .bits32By32 then 18 else 34 : ℕ) : ℤ) := by
  unfold Divider.latency
  split <;> rfl

section

variable (p : Processor) {r : IoRegister} (lanes : Lanes)

/-- A write to an input register makes the unit busy, with its completion a latency ahead. -/
theorem writeIo_input (hr : r ∈ u.inputs) (s : System) (log : Log) :
    u.isBusy (s.writeIo p lanes log r).1 = true ∧
    ∃ delay : Int64, delay.toInt = u.latency (s.writeIo p lanes log r).1 ∧
      (s.writeIo p lanes log r).1.queue = s.queue.schedule u.event delay := by
  cases u with
  | divider =>
    cases r with
    | divisionControl | numerator | denominator =>
      exact ⟨isBit_setBit_busy _ true, _, toInt_latency _, rfl⟩
    | _ => exact absurd hr (by simp [inputs, IoRegister.divisionInputs])
  | squareRoot =>
    cases r with
    | squareRootControl | squareRootInput =>
      exact ⟨isBit_setBit_busy _ true, SquareRoot.latency, rfl, rfl⟩
    | _ => exact absurd hr (by simp [inputs, IoRegister.squareRootInputs])

/-- A write to another register leaves the unit and its completion alone. -/
theorem writeIo_other (hr : r ∉ u.inputs) (s : System) (log : Log) :
    u.isBusy (s.writeIo p lanes log r).1 = u.isBusy s ∧
    ((s.writeIo p lanes log r).1.queue = s.queue ∨
      ∃ event delay, event ≠ u.event ∧
        (s.writeIo p lanes log r).1.queue = s.queue.schedule event delay) := by
  constructor
  · cases u with
    | divider => exact congrArg Divider.isBusy (System.divider_writeIo_other hr log)
    | squareRoot => exact congrArg SquareRoot.isBusy (System.squareRoot_writeIo_other hr log)
  · cases r with
    | divisionControl | numerator | denominator =>
      refine .inr ⟨.divisionDone, _, fun h => ?_, rfl⟩
      cases u with
      | divider => exact hr (by simp [inputs, IoRegister.divisionInputs])
      | squareRoot => cases h
    | squareRootControl | squareRootInput =>
      refine .inr ⟨.squareRootDone, _, fun h => ?_, rfl⟩
      cases u with
      | divider => cases h
      | squareRoot => exact hr (by simp [inputs, IoRegister.squareRootInputs])
    | timerControl i =>
      have hqueue : (s.writeIo p lanes log (.timerControl i)).1.queue = _ :=
        congrArg System.queue (s.queue_writeTimerControl p i lanes log)
      rw [hqueue]
      cases ((s.timers.get p).writeControl i lanes s.queue.now).2 with
      | none => exact .inl rfl
      | some delay => exact .inr ⟨_, delay, u.event_ne_overflow p i, rfl⟩
    | ipcSync =>
      left
      show (s.writeIpc p lanes).queue = _
      unfold System.writeIpc
      dsimp only
      split <;> rfl
    | _ => exact .inl rfl

end

/-- Only the event of its completion ends the work of a unit. -/
theorem isBusy_dispatch (s : System) (event : Fired Event) (log : Log) :
    u.isBusy (s.dispatch event log).1 = if event.kind = u.event then false else u.isBusy s := by
  obtain ⟨kind, lateBy⟩ := event
  cases kind with
  | pause => cases u <;> rfl
  | divisionDone =>
    cases u with
    | divider => exact isBit_setBit_busy _ false
    | squareRoot => rfl
  | squareRootDone =>
    cases u with
    | divider => rfl
    | squareRoot => exact isBit_setBit_busy _ false
  | timerOverflow timer isArm9 =>
    have hoverflow : ∀ p i log', u.isBusy (s.onTimerOverflow p i lateBy log').1 = u.isBusy s := by
      intro p i log'
      by_cases hcounts : (s.timers.get p).countsTime i = true
      · rw [System.onTimerOverflow_of_countsTime _ _ _ _ _ hcounts]
        exact isBusy_congr rfl rfl
      · rw [System.onTimerOverflow_of_not_countsTime _ _ _ _ _
          (Bool.eq_false_of_not_eq_true hcounts)]
    rw [if_neg (by cases u <;> nofun)]
    unfold System.dispatch
    dsimp only
    split
    · exact hoverflow _ _ _
    · rfl

/-- Lowering the clocks leaves the units alone. -/
theorem isBusy_rebase (u : MathUnit) (s : Session) :
    u.isBusy s.rebase.system = u.isBusy s.system := by
  unfold Session.rebase
  dsimp only
  split <;> exact isBusy_congr rfl rfl

/-! ### The last start -/

/-- The unit was last started so that it is done at a time: the clock at the write, the latency
that the write left, and less what the clocks were lowered by since. -/
def DoneAt (u : MathUnit) (t : List Happening) (time : ℤ) : Prop :=
  ∃ earlier p r before after later, t = earlier ++ .wrote p r before after :: later ∧
    r ∈ u.inputs ∧ (∀ h ∈ later, ¬ u.startedBy h) ∧
    time = before.queue.now.toNat + u.latency after - loweredBy later

theorem DoneAt.append {time : ℤ} (h : u.DoneAt t time) {v : List Happening}
    (hquiet : ∀ h ∈ v, ¬ u.startedBy h) : u.DoneAt (t ++ v) (time - loweredBy v) := by
  obtain ⟨earlier, p, r, before, after, later, rfl, hr, hlater, rfl⟩ := h
  refine ⟨earlier, p, r, before, after, later ++ v, ?_, hr, ?_, ?_⟩
  · rw [List.append_assoc, List.cons_append]
  · intro h hmem
    rcases List.mem_append.mp hmem with hmem | hmem
    · exact hlater h hmem
    · exact hquiet h hmem
  · rw [Happening.loweredBy_append]
    push_cast
    ring

/-- A unit is busy as long as its completion waits, which is due when the unit is done. -/
structure Waits (u : MathUnit) (s : System) (t : List Happening) : Prop where
  isBusy_iff : u.isBusy s = true ↔ ∃ e ∈ s.queue.events, e.kind = u.event
  due : ∀ e ∈ s.queue.events, e.kind = u.event → u.DoneAt t e.time.toInt

/-- What leaves the busy bit and the unit's completion alone, and does not start the unit. -/
theorem Waits.frame (h : u.Waits s t) (hbusy : u.isBusy s' = u.isBusy s)
    (hsame : ∀ e : Pending Event, e.kind = u.event → (e ∈ s'.queue.events ↔ e ∈ s.queue.events))
    {v : List Happening} (hquiet : ∀ h ∈ v, ¬ u.startedBy h) (hlowered : loweredBy v = 0) :
    u.Waits s' (t ++ v) := by
  constructor
  · rw [hbusy, h.isBusy_iff]
    exact ⟨fun ⟨e, he, hkind⟩ => ⟨e, (hsame e hkind).mpr he, hkind⟩,
      fun ⟨e, he, hkind⟩ => ⟨e, (hsame e hkind).mp he, hkind⟩⟩
  · intro e he hkind
    have hdone := (h.due e ((hsame e hkind).mp he) hkind).append hquiet
    rwa [hlowered, Nat.cast_zero, sub_zero] at hdone

/-- The same when nothing happens that is recorded. -/
theorem Waits.still (h : u.Waits s t) (hbusy : u.isBusy s' = u.isBusy s)
    (hsame : ∀ e : Pending Event, e.kind = u.event →
      (e ∈ s'.queue.events ↔ e ∈ s.queue.events)) : u.Waits s' t := by
  have hframe := h.frame hbusy hsame (List.forall_mem_nil _) rfl
  rwa [List.append_nil] at hframe

/-- A unit that is started has one event to wait for, which is due when it is done. -/
theorem waits_started (hsound : s.Sound) (hnow : s.queue.now.toNat < clockBound)
    {p : Processor} {r : IoRegister} (hr : r ∈ u.inputs) (hbusy : u.isBusy s' = true)
    {delay : Int64} (hdelay : delay.toInt = u.latency s')
    (hqueue : s'.queue = s.queue.schedule u.event delay) :
    u.Waits s' (t ++ [.wrote p r s s']) := by
  have hclock : clockBound = 2 ^ 62 + 2 ^ 32 := rfl
  have hle := u.latency_le s'
  have hmem : ∀ e, e ∈ s'.queue.events ↔
      e = ⟨u.event, s.queue.dueTime delay⟩ ∨ e ∈ s.queue.events ∧ e.kind ≠ u.event := by
    rw [hqueue]
    exact EventQueue.mem_schedule hsound.coherent (hsound.room _) delay
  refine ⟨⟨fun _ => ⟨_, (hmem _).mpr (.inl rfl), rfl⟩, fun _ => hbusy⟩, fun e he hkind => ?_⟩
  obtain rfl := ((hmem e).mp he).resolve_right fun h => h.2 hkind
  refine ⟨t, p, r, s, s', [], rfl, hr, List.forall_mem_nil _, ?_⟩
  rw [EventQueue.toInt_dueTime _ (by omega) (by omega) (by omega), hdelay, loweredBy,
    Nat.cast_zero, sub_zero]

/-- Handling the unit's completion ends its work, and that of any other event leaves it alone. -/
theorem Waits.fired (h : u.Waits s t) (hsound : s.Sound) {target : UInt64} {event : Fired Event}
    {queue : EventQueue Event} (hpop : s.queue.popDue target = some (event, queue)) (log : Log) :
    u.Waits (({ s with queue } : System).dispatch event log).1 (t ++ [.fired event queue.now]) := by
  have hpopped : System.Sound { s with queue } := hsound.popDue hpop
  have hbusy := isBusy_dispatch (u := u) { s with queue } event log
  -- Nothing that handling the event schedules is a completion of the unit.
  have hmem : ∀ e : Pending Event, e.kind = u.event →
      (e ∈ (({ s with queue } : System).dispatch event log).1.queue.events ↔
        e ∈ s.queue.events ∧ e.kind ≠ event.kind) := by
    intro e hkind
    rw [← hsound.mem_popDue hpop]
    rcases System.queue_dispatch_overflow { s with queue } event log with hqueue | ⟨p, i, delay,
      hqueue⟩
    · rw [hqueue]
    · rw [hqueue]
      exact hpopped.mem_schedule_other (u.event_ne_overflow p i) delay hkind
  by_cases hevent : event.kind = u.event
  · have hnone : ∀ e ∈ (({ s with queue } : System).dispatch event log).1.queue.events,
        e.kind ≠ u.event := fun e he hkind => ((hmem e hkind).mp he).2 (hkind.trans hevent.symm)
    rw [if_pos hevent] at hbusy
    refine ⟨?_, fun e he hkind => absurd hkind (hnone e he)⟩
    rw [hbusy]
    exact ⟨Bool.noConfusion, fun ⟨e, he, hkind⟩ => absurd hkind (hnone e he)⟩
  · rw [if_neg hevent] at hbusy
    refine h.frame hbusy (fun e hkind => ?_) (by simp [startedBy]) rfl
    rw [hmem e hkind]
    exact and_iff_left fun heq => hevent (heq.symm.trans hkind)

/-- Lowering the clocks moves the completion down by as much as it moves the clock. -/
theorem Waits.lower {s : Session} (h : u.Waits s.system t)
    (hpositive : ∀ e ∈ s.system.queue.events, 0 ≤ e.time.toInt) :
    u.Waits s.rebase.system (t ++ [.lowered s.system.queue.rebase.1]) := by
  have hmem := Session.mem_events_rebase hpositive u.event
  have hbusy := u.isBusy_rebase s
  constructor
  · rw [hbusy, h.isBusy_iff]
    constructor
    · rintro ⟨e, he, hkind⟩
      obtain ⟨e', he', hkind', -⟩ :=
        (hmem (e.time.toInt - s.system.queue.rebase.1.toNat)).mpr ⟨e, he, hkind, by ring⟩
      exact ⟨e', he', hkind'⟩
    · rintro ⟨e, he, hkind⟩
      obtain ⟨e', he', hkind', -⟩ := (hmem e.time.toInt).mp ⟨e, he, hkind, rfl⟩
      exact ⟨e', he', hkind'⟩
  · intro e he hkind
    obtain ⟨e', he', hkind', htime⟩ := (hmem e.time.toInt).mp ⟨e, he, hkind, rfl⟩
    have hdone := (h.due e' he' hkind').append
      (v := [.lowered s.system.queue.rebase.1]) (by simp [startedBy])
    rw [htime] at hdone
    have hsum : e.time.toInt + s.system.queue.rebase.1.toNat -
        loweredBy [.lowered s.system.queue.rebase.1] = e.time.toInt := by
      show _ - ((s.system.queue.rebase.1.toNat + 0 : ℕ) : ℤ) = _
      push_cast
      ring
    rwa [hsum] at hdone

/-- No unit works when the console is switched on. -/
theorem waits_initial (u : MathUnit) (config : Config) : u.Waits { config } [] := by
  have hidle : u.isBusy { config } = false := by
    cases u with
    | divider => exact (by decide : ({} : Divider).isBusy = false)
    | squareRoot => exact (by decide : ({} : SquareRoot).isBusy = false)
  refine ⟨?_, List.forall_mem_nil _⟩
  rw [hidle]
  exact ⟨Bool.noConfusion, fun ⟨_, he, _⟩ => absurd he List.not_mem_nil⟩

/-- **A math unit is busy as long as its completion waits.** The event is due a latency after the
last write to an input register of the unit. -/
theorem waits_chronicle (u : MathUnit) : Chronicle u.Waits where
  congr h _ hdivider hroot hqueue :=
    h.still (isBusy_congr hdivider hroot) fun e _ => by rw [hqueue]
  wrote {s t} hpunctual hnow h p lanes log r := by
    by_cases hr : r ∈ u.inputs
    · obtain ⟨hbusy, delay, hdelay, hqueue⟩ := writeIo_input p lanes hr s log
      exact waits_started hpunctual.sound hnow hr hbusy hdelay hqueue
    · obtain ⟨hbusy, hqueue⟩ := writeIo_other p lanes hr s log
      refine h.frame hbusy (fun e hkind => ?_) (by simpa [startedBy] using hr) rfl
      rcases hqueue with hqueue | ⟨event, delay, hevent, hqueue⟩
      · rw [hqueue]
      · rw [hqueue]
        exact hpunctual.sound.mem_schedule_other hevent delay hkind
  paused hsound h delay :=
    h.still (isBusy_congr rfl rfl) fun _ => hsound.mem_schedule_other u.event_ne_pause delay
  fired hpunctual _ _ hpop h log := h.fired hpunctual.sound hpop log
  passed _ _ _ _ h := h.still (isBusy_congr rfl rfl) fun _ _ => Iff.rfl
  lowered _ hpositive h := h.lower hpositive

end MathUnit
end Handheld.Console
