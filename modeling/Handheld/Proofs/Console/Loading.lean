import Mathlib
import Handheld.Proofs.Console.MemoryMap
import Handheld.Proofs.Console.Saving

/-!
# Loaded sessions

The saved form of a session says how each field is written, and nothing of how the fields belong
together: how long the memories are, which timers there are, how the events are ordered, or which
windows the registers describe. Loading takes what the bytes say. So the loaded session is intact
exactly if the one that was saved is, which holds of every session that a console comes to, and
does not of every sequence of bytes that can be loaded: `loaded_intact_iff`.

Once intact a session stays so, and no access and no event leads out of bounds.
-/

namespace Handheld.Console

/-! ## Bounds -/

/-- The console knows an event unless it is the overflow of a timer that does not exist. -/
theorem Event.mem_known_iff {event : Event} :
    event ∈ known ↔ ∀ timer isArm9, event = .timerOverflow timer isArm9 → timer.toNat < 4 := by
  constructor
  · intro h timer isArm9 hevent
    subst hevent
    have hsmall : ∀ e ∈ known, ∀ t a, e = timerOverflow t a → t.toNat < 4 := by decide +kernel
    exact hsmall _ h timer isArm9 rfl
  · intro h
    cases event with
    | pause => exact pause_known
    | divisionDone => exact divisionDone_known
    | squareRootDone => exact squareRootDone_known
    | timerOverflow timer isArm9 =>
      have htimer := h timer isArm9 rfl
      have hevent : timerOverflow timer isArm9 =
          System.overflowEvent (if isArm9 then .arm9 else .arm7) ⟨timer.toNat, htimer⟩ := by
        unfold System.overflowEvent
        rw [UInt8.ofNat_toNat]
        cases isArm9 <;> rfl
      rw [hevent]
      exact overflow_known _ _

namespace System

/-- What accesses to memory and the handling of events need in order to stay within bounds. -/
structure Bounded (s : System) : Prop where
  sized : s.memory.Sized
  timers : ∀ e ∈ s.queue.events, ∀ timer isArm9, e.kind = .timerOverflow timer isArm9 →
    timer.toNat < 4
  settled : s.control.Settled

/-- What the operations on a session rely on: bounds, and the order of the events. -/
structure Intact (s : System) : Prop extends Bounded s where
  coherent : s.queue.Coherent

theorem bounded_iff {s : System} :
    s.Bounded ↔ (∀ r, (s.memory.bytes r).size = r.size) ∧
      (∀ e ∈ s.queue.events, e.kind ∈ Event.known) ∧ s.control.Settled := by
  constructor
  · rintro ⟨sized, timers, settled⟩
    exact ⟨sized, fun e he => Event.mem_known_iff.mpr (timers e he), settled⟩
  · rintro ⟨sized, known, settled⟩
    exact ⟨sized, fun e he => Event.mem_known_iff.mp (known e he), settled⟩

/-- Steps keep a system within bounds, whatever the clocks are. -/
theorem Bounded.steps {s s' : Session} (h : s.system.Bounded) (steps : s.Steps s') :
    s'.system.Bounded :=
  bounded_iff.mpr <|
    ((invariant_sizes Region.size).and (invariant_known.and invariant_settled)).steps
      (bounded_iff.mp h) steps

/-- Within bounds every access to memory ends within that memory. -/
theorem Bounded.access {s : System} (h : s.Bounded) {p : Processor} {w : Width} {address : UInt32}
    {write : Bool} {region : Region} {offset : Nat}
    (htarget : s.target p (Address.alignDown address w.bytes) write = .memory region offset) :
    offset + w.bytes.toNat ≤ (s.memory.bytes region).size := by
  rw [h.sized region]
  exact ((target_eq_memory_iff h.settled).mp htarget).within

theorem Intact.sound {s : System} (h : s.Intact) : s.Sound :=
  ⟨h.coherent, (bounded_iff.mp h.toBounded).2.1⟩

theorem intact_initial (config : Config) : ({ config } : System).Intact where
  sized := Memory.sized_initial
  timers _ he := absurd he List.not_mem_nil
  settled := SystemControl.settled_initial
  coherent := .empty

/-- Settings and the running flag do not count. -/
theorem intact_restored_iff {saved current : Session} :
    (saved.restored current).system.Intact ↔ saved.system.Intact :=
  ⟨fun h => ⟨⟨h.sized, h.timers, h.settled⟩, h.coherent⟩,
    fun h => ⟨⟨h.sized, h.timers, h.settled⟩, h.coherent⟩⟩

end System

namespace Session

/-! ## Intact sessions -/

theorem Step.intact {s s' : Session} {t : List Happening} (h : Step s t s')
    (hintact : s.system.Intact) (range : s'.now.toNat < 2 ^ 62) : s'.system.Intact :=
  ⟨hintact.toBounded.steps (.single ⟨t, h⟩), (h.sound hintact.sound range).coherent⟩

theorem Run.intact {s s' : Session} {t : List Happening} (h : Run s t s')
    (hintact : s.system.Intact) : s'.system.Intact := by
  induction h with
  | refl => exact hintact
  | step _ step range ih => exact step.intact ih range

/-- Every session that a console can come to is intact, and can be written. -/
theorem Reachable.intact {s : Session} (h : Reachable s) :
    s.system.Intact ∧ s.system.Storable := by
  induction h with
  | new config => exact ⟨System.intact_initial config, System.storable_initial config⟩
  | step _ step range ih =>
    exact ⟨step.intact ih.1 range, invariant_storable.step ih.2 step⟩
  | restored _ _ ih _ =>
    exact ⟨System.intact_restored_iff.mpr ih.1, ih.2.memory, ih.2.queue⟩

/-! ## What is loaded -/

/-- A session is loaded if the settings let it and the bytes start with a saved one. -/
theorem load_eq_ok_iff_saved {current s : Session} {bytes : ByteArray} {log log' : Log} :
    current.load bytes log = (.ok s, log') ↔
      current.system.config.compressStates = false ∧ log' = log ∧
        ∃ (saved : Session) (tail : ByteArray), saved.system.Storable ∧
          bytes = saved.save ++ tail ∧ s = saved.restored current := by
  constructor
  · intro h
    obtain ⟨hplain, hlog, saved, -, hs⟩ := load_eq_ok_iff.mp h
    obtain ⟨hstorable, -, tail, hbytes⟩ := storable_of_load h
    refine ⟨hplain, hlog, s, tail, hstorable, hbytes, ?_⟩
    rw [hs]
    rfl
  · rintro ⟨hplain, rfl, saved, tail, hstorable, rfl, rfl⟩
    exact load_save hstorable hplain tail log'

end Session

/-- **Loading takes a session as it was saved.** For every session and every sequence of bytes:

1. if loading fails, the session stays what it was;
2. what is loaded is a session whose saved form the bytes start with, whatever its fields are,
   under the settings of the one that it replaces;
3. it is intact exactly if the saved one was;
4. then no access and no event leads out of bounds after any further steps, and as long as the
   clocks are in range the session stays intact;
5. what a console has saved is loaded, and is intact. -/
theorem loaded_intact_iff (current : Session) (bytes : ByteArray) (log : Log) :
    (∀ cause s log',
      Session.Operation.perform current log (.load bytes) = some (.failed cause, s, log') →
        s = current) ∧
    (∀ s log', current.load bytes log = (.ok s, log') ↔
      current.system.config.compressStates = false ∧ log' = log ∧
        ∃ (saved : Session) (tail : ByteArray), saved.system.Storable ∧
          bytes = saved.save ++ tail ∧ s = saved.restored current) ∧
    (∀ s log' (saved : Session) (tail : ByteArray),
      current.load bytes log = (.ok s, log') → saved.system.Storable →
        bytes = saved.save ++ tail → (s.system.Intact ↔ saved.system.Intact)) ∧
    (∀ s log', current.load bytes log = (.ok s, log') → s.system.Intact →
      (∀ s', s.Steps s' →
        (∀ p w address write region offset,
          s'.system.target p (Address.alignDown address (Width.bytes w)) write =
              .memory region offset →
            offset + w.bytes.toNat ≤ (s'.system.memory.bytes region).size) ∧
        ∀ e ∈ s'.system.queue.events, ∀ timer isArm9, e.kind = .timerOverflow timer isArm9 →
          timer.toNat < 4) ∧
      ∀ t s', s.Run t s' → s'.system.Intact) ∧
    (∀ (saved : Session) (tail : ByteArray), saved.Reachable →
      current.system.config.compressStates = false → bytes = saved.save ++ tail →
        ∃ s, current.load bytes log = (.ok s, log) ∧ s.system.Intact) := by
  refine ⟨?_, fun s log' => Session.load_eq_ok_iff_saved, ?_, ?_, ?_⟩
  · intro cause s log' performed
    rcases hload : current.load bytes log with ⟨cause' | loaded, log₁⟩
    · simp only [Session.Operation.perform, hload] at performed
      exact (Prod.mk.inj (Prod.mk.inj (Option.some.inj performed)).2).1.symm
    · simp only [Session.Operation.perform, hload] at performed
      cases (Prod.mk.inj (Option.some.inj performed)).1
  · intro s log' saved tail hload hstorable hbytes
    obtain ⟨hplain, -, -⟩ := Session.load_eq_ok_iff.mp hload
    have hsaved := Session.load_save hstorable hplain tail log
    rw [← hbytes, hload] at hsaved
    obtain rfl : s = saved.restored current := Except.ok.inj (Prod.mk.inj hsaved).1
    exact System.intact_restored_iff
  · intro s log' _ hintact
    refine ⟨fun s' steps => ?_, fun t s' run => run.intact hintact⟩
    have hbounded := hintact.toBounded.steps steps
    exact ⟨fun _ _ _ _ _ _ htarget => hbounded.access htarget, hbounded.timers⟩
  · rintro saved tail hreachable hplain rfl
    obtain ⟨hintact, hstorable⟩ := hreachable.intact
    exact ⟨_, Session.load_save hstorable hplain tail log,
      System.intact_restored_iff.mpr hintact⟩

/-- What a console has saved is loaded intact. But a session without a window for the data memory,
which the registers describe, is loaded as well, and so is one without a main memory. -/
theorem loaded_intact_iff_broken :
    let current := Session.new {}
    let windowless : Session :=
      { system := { control := { SystemControl.initial with dataWindow := {} } } }
    let emptied : Session := { system := { memory := { main := .empty } } }
    (∃ s, current.load (current.save ++ ⟨#[7]⟩) {} = (.ok s, {}) ∧ s.system.Intact) ∧
    (∀ broken ∈ [windowless, emptied],
      current.load broken.save {} = (.ok (broken.restored current), {}) ∧
        ¬ (broken.restored current).system.Intact) ∧
    (emptied.restored current).system.target .arm9 0x02000000 false = .memory .main 0 ∧
      ((emptied.restored current).system.memory.bytes .main).size = 0 := by
  intro current windowless emptied
  have hbroken : ∀ broken : Session, broken.system.Storable → ¬ broken.system.Intact →
      current.load broken.save {} = (.ok (broken.restored current), {}) ∧
        ¬ (broken.restored current).system.Intact := by
    intro broken hstorable hbroken
    obtain ⟨-, hload, hintact, -, -⟩ := loaded_intact_iff current broken.save {}
    have hbytes : broken.save = broken.save ++ .empty := ByteArray.append_empty.symm
    have hok := (hload (broken.restored current) {}).mpr
      ⟨rfl, rfl, broken, .empty, hstorable, hbytes, rfl⟩
    exact ⟨hok, mt (hintact _ _ broken .empty hok hstorable hbytes).mp hbroken⟩
  have hinitial := System.storable_initial {}
  refine ⟨?_, ?_, rfl, rfl⟩
  · obtain ⟨-, -, -, -, hsaved⟩ := loaded_intact_iff current (current.save ++ ⟨#[7]⟩) {}
    exact hsaved current ⟨#[7]⟩ (.new {}) rfl rfl
  · intro broken hmem
    rcases List.mem_pair.mp hmem with rfl | rfl
    · refine hbroken windowless ⟨hinitial.memory, hinitial.queue⟩ fun h => ?_
      exact absurd (SystemControl.settled_iff.mp h.settled).1 (by decide)
    · refine hbroken emptied ⟨⟨?_, hinitial.memory.2.1, hinitial.memory.2.2⟩,
        hinitial.queue⟩ fun h => ?_
      · decide
      · exact absurd (h.sized .main) (by decide)

end Handheld.Console
