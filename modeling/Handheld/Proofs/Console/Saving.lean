import Mathlib
import Handheld.Proofs.Console.Operations
import Handheld.Proofs.Console.SavedForms

/-!
# Saving and loading

A processor, an event queue and a session are what their saved form says, and the saved form is the
only one: `saved_forms_exact`. A session takes over the settings of the one that it replaces and
is not running, so a session that loads what it has saved goes on as if nothing had happened.

What there is to show of sessions is that every one that operations lead to can be written: its
queue is within its capacity, its memories keep their sizes, and it is not running between two
operations. That holds also after bytes of another origin have been loaded.
-/

namespace Handheld.Console

open Codec

/-! ## What can be written -/

/-- A system stays one that can be written. -/
theorem invariant_storable : Invariant System.Storable where
  memory := by
    rintro s memory h ⟨region, count, offset, value, rfl⟩
    have hsize := fun r => s.memory.size_write region count offset value r
    obtain ⟨hmain, hshared, hwork⟩ := h.memory
    refine ⟨⟨?_, ?_, ?_⟩, h.queue⟩
    · exact (hsize .main).trans_lt hmain
    · exact (hsize .shared).trans_lt hshared
    · exact (hsize .work).trans_lt hwork
  bootFlags h _ := ⟨h.memory, h.queue⟩
  control h _ := ⟨h.memory, h.queue⟩
  ipc h _ _ := ⟨h.memory, h.queue⟩
  scheduled h event _ delay :=
    ⟨h.memory, (EventQueue.Operation.schedule _ event delay).length_le h.queue⟩
  queue h operation _ := ⟨h.memory, operation.length_le h.queue⟩
  devices h hmemory _ _ hqueue := by
    refine ⟨?_, ?_⟩
    · rw [hmemory]
      exact h.memory
    · rw [hqueue]
      exact h.queue

theorem System.storable_initial (config : Config) : ({ config } : System).Storable := by
  refine ⟨⟨?_, ?_, ?_⟩, Nat.zero_le _⟩
  · show emptyMain.val.size < _
    rw [emptyMain.property]
    decide
  · show emptyShared.val.size < _
    rw [emptyShared.property]
    decide
  · show emptyWork.val.size < _
    rw [emptyWork.property]
    decide

/-- Nothing that a processor does starts a session. -/
theorem stopped_monitor : Monitor fun s _ => s.running = false where
  memory _ h := h
  control _ h := h
  interrupts _ h := h
  wrote p lanes log r h := (System.running_writeIo _ p lanes log r).trans h

namespace Session

/-! ## Loading -/

/-- What is written of a session. -/
def bare (s : Session) : Session :=
  { s with system := { s.system with config := {}, running := false } }

/-- The settings and the running flag are not written. -/
theorem encode_bare (s : Session) : codec.encode s.bare = s.save := by
  unfold save encode Session.codec System.codec
  simp only [put_imap, put_pair, bare]

theorem storable_bare {s : Session} (h : s.system.Storable) : s.bare.system.Storable :=
  ⟨h.memory, h.queue⟩

theorem load_of_compressed {current : Session}
    (h : current.system.config.compressStates = true) (bytes : ByteArray) (log : Log) :
    current.load bytes log =
      (.error .compressed, log.add (.loadFailed LoadError.compressed.message)) := by
  simp only [load, Codec.load, h, if_true]

theorem load_of_decode_error {current : Session} {bytes : ByteArray} {cause : DecodeError}
    (hplain : current.system.config.compressStates = false)
    (h : codec.decode bytes = .error cause) (log : Log) :
    current.load bytes log =
      (.error (.malformed cause), log.add (.loadFailed (LoadError.malformed cause).message)) := by
  simp only [load, Codec.load, hplain, h, Bool.false_eq_true, if_false]

theorem load_of_decode_ok {current saved : Session} {bytes : ByteArray}
    (hplain : current.system.config.compressStates = false)
    (h : codec.decode bytes = .ok saved) (log : Log) :
    current.load bytes log = (.ok (saved.restored current), log) := by
  obtain ⟨⟨-, -, hrunning⟩, -⟩ := lawful_codec.canonical h
  simp only [load, Codec.load, hplain, h, Bool.false_eq_true, if_false]
  unfold restored
  rw [← hrunning]

/-- A session is loaded if the settings let it and the bytes start with a saved one. -/
theorem load_eq_ok_iff {current s : Session} {bytes : ByteArray} {log log' : Log} :
    current.load bytes log = (.ok s, log') ↔
      current.system.config.compressStates = false ∧ log' = log ∧
        ∃ saved, codec.decode bytes = .ok saved ∧ s = saved.restored current := by
  cases hplain : current.system.config.compressStates with
  | true =>
    rw [load_of_compressed hplain]
    refine ⟨fun h => ?_, fun h => Bool.noConfusion h.1⟩
    cases (Prod.mk.inj h).1
  | false =>
    cases hdecode : codec.decode bytes with
    | error cause =>
      rw [load_of_decode_error hplain hdecode]
      refine ⟨fun h => ?_, fun h => ?_⟩
      · cases (Prod.mk.inj h).1
      · obtain ⟨-, -, saved, hsaved, -⟩ := h
        cases hsaved
    | ok saved =>
      rw [load_of_decode_ok hplain hdecode]
      constructor
      · intro h
        obtain ⟨hs, hlog⟩ := Prod.mk.inj h
        exact ⟨rfl, hlog.symm, saved, rfl, (Except.ok.inj hs).symm⟩
      · rintro ⟨-, rfl, saved', hsaved, rfl⟩
        rw [Except.ok.inj hsaved]

/-- A saved session is loaded, whatever follows it. -/
theorem load_save {s current : Session} (h : s.system.Storable)
    (hplain : current.system.config.compressStates = false) (tail : ByteArray) (log : Log) :
    current.load (s.save ++ tail) log = (.ok (s.restored current), log) := by
  have hdecode := lawful_codec.roundTrip ⟨storable_bare h, rfl, rfl⟩ tail
  rw [encode_bare] at hdecode
  exact load_eq_ok_iff.mpr ⟨hplain, rfl, s.bare, hdecode, rfl⟩

/-- A part of a saved session is refused. -/
theorem load_cut {s current : Session} (h : s.system.Storable)
    (hplain : current.system.config.compressStates = false) {front missing : ByteArray}
    (hmissing : missing.size ≠ 0) (hcut : s.save = front ++ missing) (log : Log) :
    (current.load front log).1 = .error (.malformed .unexpectedEnd) := by
  rw [← encode_bare] at hcut
  have hdecode := lawful_codec.cut ⟨storable_bare h, rfl, rfl⟩ hmissing hcut
  rw [load_of_decode_error hplain hdecode]

/-- What is loaded was saved so, and can be saved again. -/
theorem storable_of_load {current s : Session} {bytes : ByteArray} {log log' : Log}
    (h : current.load bytes log = (.ok s, log')) :
    s.system.Storable ∧ s.system.running = false ∧ ∃ tail, bytes = s.save ++ tail := by
  obtain ⟨-, -, saved, hdecode, rfl⟩ := load_eq_ok_iff.mp h
  obtain ⟨⟨hstorable, -, -⟩, tail, htail⟩ := lawful_codec.canonical hdecode
  refine ⟨⟨hstorable.memory, hstorable.queue⟩, rfl, tail, ?_⟩
  have hsame : (saved.restored current).save = codec.encode saved := by
    rw [← encode_bare]
    exact encode_bare saved
  rw [hsame]
  exact htail

/-! ## Operated sessions -/

theorem running_advance {s s' : Session} {log log' : Log} (h : s.system.running = false)
    (returned : s.advance? log = some (s', log')) : s'.system.running = false := by
  obtain ⟨fuel, settled, log'', hsettle, rfl, -⟩ := advance_parts returned
  have hstepped : (s.stepCpu s.next log).1.system.running = false :=
    stopped_monitor.instruction (t := []) s.next h log
  rw [running_rebase]
  exact running_settle hstepped hsettle

/-- Running for some time ends when the session has stopped. -/
theorem running_of_runWithin {fuel : Nat} {s s' : Session} {log log' : Log}
    (h : s.runWithin fuel log = some (s', log')) : s'.system.running = false := by
  induction fuel using Nat.strong_induction_on generalizing s log with
  | _ fuel ih =>
    unfold runWithin at h
    by_cases hrunning : (!s.system.running) = true
    · rw [if_pos hrunning] at h
      obtain ⟨rfl, -⟩ := Prod.mk.inj (Option.some.inj h)
      simpa using hrunning
    · rw [if_neg hrunning] at h
      cases fuel with
      | zero => cases h
      | succ left =>
        cases hadvance : s.advance? log with
        | none =>
          rw [hadvance] at h
          cases h
        | some next =>
          rw [hadvance] at h
          exact ih left (Nat.lt_succ_self left) h

/-- Between two operations a session is not running. -/
theorem Operation.running {operation : Operation} {s s' : Session} {answer : Answer}
    {log log' : Log} (performed : operation.perform s log = some (answer, s', log'))
    (h : s.system.running = false) : s'.system.running = false := by
  cases operation with
  | advance =>
    obtain ⟨⟨s₁, log₁⟩, hreturned, houtcome⟩ := Option.map_eq_some_iff.mp performed
    obtain ⟨-, rfl, -⟩ := houtcome
    exact running_advance h hreturned
  | run cycles =>
    obtain ⟨⟨s₁, log₁⟩, hreturned, houtcome⟩ := Option.map_eq_some_iff.mp performed
    obtain ⟨-, rfl, -⟩ := houtcome
    exact running_of_runWithin hreturned
  | instruction p =>
    obtain ⟨-, rfl, -⟩ := Option.some.inj performed
    exact stopped_monitor.instruction (t := []) p h log
  | read p w address =>
    obtain ⟨-, rfl, -⟩ := Option.some.inj performed
    show (s.read p w address log).2.1.system.running = false
    rw [Monitor.hostRead]
    exact h
  | write p w address value =>
    obtain ⟨-, rfl, -⟩ := Option.some.inj performed
    exact stopped_monitor.hostWrite (t := []) p w address value h log
  | interrupt | replaceCpu | boot | save =>
    obtain ⟨-, rfl, -⟩ := Option.some.inj performed
    exact h
  | load bytes =>
    rcases hload : s.load bytes log with ⟨cause | loaded, log₁⟩
    · simp only [perform, hload] at performed
      obtain ⟨-, rfl, -⟩ := Option.some.inj performed
      exact h
    · simp only [perform, hload] at performed
      obtain ⟨-, rfl, rfl⟩ := Option.some.inj performed
      exact (storable_of_load hload).2.1

/-- Every session that operations lead to can be written, and is not running. -/
theorem Operated.storable {s : Session} (h : Operated s) :
    s.system.Storable ∧ s.system.running = false := by
  induction h with
  | new config => exact ⟨System.storable_initial config, rfl⟩
  | operation _ performed ih =>
    refine ⟨?_, Operation.running performed ih.2⟩
    rcases Operation.steps performed with hsteps | ⟨bytes, -, hload⟩
    · exact invariant_storable.steps ih.1 hsteps
    · exact (storable_of_load hload).1

/-- A session that loads what it has saved is what it was. -/
theorem restored_self {s current : Session} (hrunning : s.system.running = false)
    (hconfig : current.system.config = s.system.config) : s.restored current = s := by
  unfold restored
  rw [hconfig, ← hrunning]

end Session

/-! ## Exact saved forms -/

/-- Every queue that operations lead to is within its capacity. -/
theorem length_le_of_operated {κ : Type} [DecidableEq κ] {kind : Codec κ}
    (hkind : Faithful kind) {q : EventQueue κ} (h : EventQueue.Operated kind q) :
    q.events.length ≤ EventQueue.capacity := by
  induction h with
  | new => exact Nat.zero_le _
  | operation _ operation ih => exact operation.length_le ih
  | read hread => exact ((EventQueue.lawful_codec hkind).canonical hread).1

/-- **Saving loses nothing**: the saved forms of processors, of event queues and of sessions are
exact. A session that is loaded is the saved one with the settings of the one that it replaces, and
where the settings are its own it answers every further sequence of operations as before. -/
theorem saved_forms_exact :
    Codec.Exact CpuState.codec (fun _ => True) ∧
      Codec.Exact (EventQueue.codec u32) (EventQueue.Operated u32) ∧
      Codec.Exact (EventQueue.codec Event.codec) (EventQueue.Operated Event.codec) ∧
      (∀ (s current : Session) (log : Log), s.Operated →
        current.system.config.compressStates = false →
        (∀ tail, current.load (s.save ++ tail) log = (.ok (s.restored current), log)) ∧
        (∀ front missing, missing.size ≠ 0 → s.save = front ++ missing →
          (current.load front log).1 = .error (.malformed .unexpectedEnd)) ∧
        (current.system.config = s.system.config →
          ∃ loaded, current.load s.save log = (.ok loaded, log) ∧
            ∀ operations log', Session.Operation.performAll operations loaded log' =
              Session.Operation.performAll operations s log')) ∧
      ∀ (s current : Session) (bytes : ByteArray) (log log' : Log),
        current.load bytes log = (.ok s, log') → ∃ tail, bytes = s.save ++ tail := by
  refine ⟨CpuState.faithful_codec.exact fun _ _ => trivial,
    (EventQueue.lawful_codec faithful_u32).exact fun _ => length_le_of_operated faithful_u32,
    (EventQueue.lawful_codec Event.faithful_codec).exact fun _ =>
      length_le_of_operated Event.faithful_codec, ?_, ?_⟩
  · intro s current log hoperated hplain
    obtain ⟨hstorable, hrunning⟩ := hoperated.storable
    refine ⟨fun tail => Session.load_save hstorable hplain tail log,
      fun front missing hmissing hcut => Session.load_cut hstorable hplain hmissing hcut log, ?_⟩
    intro hconfig
    have hload := Session.load_save hstorable hplain .empty log
    rw [Session.restored_self hrunning hconfig, ByteArray.append_empty] at hload
    exact ⟨s, hload, fun operations log' => rfl⟩
  · intro s current bytes log log' hload
    exact (Session.storable_of_load hload).2.2

/-- No saved session is empty. -/
theorem Session.save_ne_empty {s : Session} (h : s.system.Storable) : s.save.size ≠ 0 := by
  intro hempty
  have hdecode := Session.lawful_codec.roundTrip ⟨Session.storable_bare h, rfl, rfl⟩ .empty
  have hnothing : Session.codec.decode .empty = .error .unexpectedEnd := rfl
  rw [Session.encode_bare, ByteArray.append_empty, ByteArray.size_eq_zero_iff.mp hempty,
    hnothing] at hdecode
  cases hdecode

/-- A session with a raised interrupt, saved and loaded into one that was just switched on. -/
theorem saved_forms_exact_interrupted :
    let s := (Session.new {}).requestInterrupt .arm9 .ipcSync
    let current := Session.new {}
    let q := ({} : EventQueue UInt32).schedule 7 100
    s.Operated ∧ EventQueue.Operated u32 q ∧
      (EventQueue.codec u32).load ((EventQueue.codec u32).encode q ++ ⟨#[1, 2]⟩) false = .ok q ∧
      current.load (s.save ++ ⟨#[1, 2]⟩) {} = (.ok (s.restored current), {}) ∧
      (current.load .empty {}).1 = .error (.malformed .unexpectedEnd) ∧
      ∃ loaded, current.load s.save {} = (.ok loaded, {}) ∧
        Session.Operation.performAll [.read .arm9 .word 0x04000214, .advance] loaded {} =
          Session.Operation.performAll [.read .arm9 .word 0x04000214, .advance] s {} := by
  intro s current q
  have hinterrupt : Session.Operation.perform (Session.new {}) {} (.interrupt .arm9 .ipcSync) =
      some (.done, s, {}) := rfl
  have hs : s.Operated := .operation (.new {}) hinterrupt
  have hq : EventQueue.Operated u32 q := .operation .new (.schedule {} 7 100)
  obtain ⟨-, hqueue, -, hsession, -⟩ := saved_forms_exact
  obtain ⟨hroundTrip, hcut, hresume⟩ := hsession s current {} hs rfl
  obtain ⟨loaded, hload, hsame⟩ := hresume rfl
  exact ⟨hs, hq, hqueue.roundTrip q hq _, hroundTrip _,
    hcut .empty s.save (Session.save_ne_empty hs.storable.1) ByteArray.empty_append.symm,
    loaded, hload, hsame _ _⟩

end Handheld.Console
