import Mathlib
import Handheld.Console.Saved
import Handheld.Proofs.Codec.Primitives

/-!
# The saved forms are lawful

Field by field, every state of the machine is written and read in the same order and widths. All
values of a processor and of the devices have a saved form; an event queue has one if it is not
over its capacity, and memories if their sizes fit into 64 bits. The settings and the running flag
of a system are not written, so of two systems that differ in these alone only one is read back.
-/

namespace Handheld

open Codec

/-! ## Processors -/

theorem FiqRegister.faithful_codec : Faithful FiqRegister.codec :=
  (faithful_u32.pair faithful_u32).iso (fun _ => rfl) fun _ => rfl

/-- Every state of a processor has a saved form. -/
theorem CpuState.faithful_codec : Faithful CpuState.codec :=
  ((faithful_vector faithful_u32 16).pair <|
    (faithful_vector FiqRegister.faithful_codec 5).pair <|
    (faithful_vector faithful_u32 6).pair <| (faithful_vector faithful_u32 6).pair <|
    faithful_u32.pair <| (faithful_vector faithful_u32 6).pair <|
    (faithful_vector faithful_u32 2).pair <| faithful_bool.pair <|
    faithful_u8.pair faithful_bool).iso (fun _ => rfl) fun _ => rfl

theorem InterruptController.faithful_codec : Faithful InterruptController.codec :=
  (faithful_bool.pair <| faithful_u32.pair faithful_u32).iso (fun _ => rfl) fun _ => rfl

/-! ## Event queues -/

section EventQueue

variable {κ : Type} {kind : Codec κ}

theorem Pending.faithful_codec (h : Faithful kind) : Faithful (Pending.codec kind) :=
  (h.pair faithful_i64).iso (fun _ => rfl) fun _ => rfl

/-- A queue that is not over its capacity has a saved form. -/
theorem EventQueue.lawful_codec (h : Faithful kind) :
    Lawful (EventQueue.codec kind) fun q => q.events.length ≤ EventQueue.capacity := by
  have hcapacity : EventQueue.capacity < 256 ^ 8 := by decide
  have hevents := lawful_list hcapacity (Pending.faithful_codec h)
  refine ((Lawful.pair faithful_u64 (Lawful.pair faithful_i64 hevents)).iso ?_ ?_).of_iff ?_
  · rintro ⟨now, next, events⟩
    rw [List.reverse_reverse]
  · rintro ⟨now, next, events⟩
    exact congrArg (EventQueue.mk now next) (List.reverse_reverse events)
  · rintro ⟨now, next, events⟩
    simp

end EventQueue

namespace Console

/-! ## Devices -/

theorem PerProcessor.faithful_codec {α : Type} {c : Codec α} (h : Faithful c) :
    Faithful (PerProcessor.codec c) :=
  (h.pair h).iso (fun _ => rfl) fun _ => rfl

theorem Both.faithful_codec {α : Type} {c : Codec α} (h : Faithful c) : Faithful (Both.codec c) :=
  (h.pair h).iso (fun _ => rfl) fun _ => rfl

theorem Timers.faithful_codec : Faithful Timers.codec :=
  ((faithful_vector faithful_u16 4).pair <|
    (faithful_vector (faithful_u16.iso (fun _ => rfl) fun _ => rfl) 4).pair <|
    (faithful_vector faithful_u16 4).pair <| faithful_vector faithful_u64 4).iso
    (fun _ => rfl) fun _ => rfl

theorem Ipc.faithful_codec : Faithful Ipc.codec :=
  (PerProcessor.faithful_codec faithful_u16).iso (fun _ => rfl) fun _ => rfl

theorem Divider.faithful_codec : Faithful Divider.codec :=
  (faithful_u16.pair <| faithful_u64.pair <| faithful_u64.pair <|
    faithful_u64.pair faithful_u64).iso (fun _ => rfl) fun _ => rfl

theorem SquareRoot.faithful_codec : Faithful SquareRoot.codec :=
  (faithful_u16.pair <| faithful_u64.pair faithful_u32).iso (fun _ => rfl) fun _ => rfl

theorem SystemControl.faithful_stateCodec : Faithful SystemControl.stateCodec := by
  refine (faithful_tag (by decide)).iso (fun i => ?_) fun state => ?_
  · match i with
    | 0 | 1 | 2 => rfl
  · cases state <;> rfl

theorem SystemControl.faithful_codec : Faithful SystemControl.codec :=
  (faithful_u32.pair <| (Both.faithful_codec faithful_u8).pair <| faithful_u8.pair <|
    (Both.faithful_codec faithful_u16).pair <| (Both.faithful_codec faithful_u32).pair <|
    (Both.faithful_codec (faithful_vector faithful_u32 8)).pair <|
    (Both.faithful_codec faithful_u32).pair <| (Both.faithful_codec faithful_u32).pair <|
    faithful_u32.pair <| faithful_stateCodec.pair <| faithful_stateCodec.pair <|
    (faithful_u32.pair faithful_u32).pair (faithful_u32.pair faithful_u32)).iso
    (fun _ => rfl) fun _ => rfl

/-! ## Events -/

namespace Event

/-- The number of an event's kind. -/
def number : Event → Fin 4
  | pause => 0
  | timerOverflow .. => 1
  | divisionDone => 2
  | squareRootDone => 3

/-- What an event is written as behind the number of its kind. -/
def payload : Event → List UInt8
  | timerOverflow timer isArm9 => (u8.pair bool).form (timer, isArm9)
  | _ => []

/-- How that is read. -/
def payloadReader (kind : Fin 4) : Reader Event := fun bytes pos =>
  match kind with
  | 0 => .ok (pause, pos)
  | 1 => (u8.pair bool).get bytes pos >>= fun p => .ok (timerOverflow p.1.1 p.1.2, p.2)
  | 2 => .ok (divisionDone, pos)
  | 3 => .ok (squareRootDone, pos)

/-- A kind that has one event. -/
theorem reads_single {event : Event} (hpayload : event.payload = []) {kind : Fin 4}
    (hkind : ∀ e, event = e ↔ e.number = kind) :
    Reads (fun _ pos => .ok (event, pos)) payload fun e => e.number = kind := by
  have hcheck : Reads (fun _ pos => .ok (event, pos)) (fun _ => []) fun e =>
      Except.ok event = .ok e := .check (.ok event)
  refine (hcheck.of_form fun e he => ?_).of_iff fun e => ?_
  · rw [← Except.ok.inj he, hpayload]
  · rw [← hkind]
    exact ⟨Except.ok.inj, congrArg Except.ok⟩

theorem faithful_codec : Faithful Event.codec := by
  have htag : Faithful (tag 4) := faithful_tag (by decide)
  have hoverflow := faithful_u8.pair faithful_bool
  have hput : ∀ e acc, (Event.codec.put e acc).data.toList =
      acc.data.toList ++ ((tag 4).form e.number ++ e.payload) := by
    intro e acc
    cases e with
    | timerOverflow timer isArm9 =>
      show ((u8.pair bool).put (timer, isArm9) ((tag 4).put 1 acc)).data.toList = _
      rw [hoverflow.put, htag.put, List.append_assoc]
      rfl
    | pause | divisionDone | squareRootDone =>
      show ((tag 4).put _ acc).data.toList = _
      rw [htag.put]
      exact congrArg _ (List.append_nil _).symm
  have hpayload : ∀ kind, True → Reads (payloadReader kind) payload fun e => e.number = kind := by
    intro kind _
    match kind with
    | 0 => exact reads_single rfl fun e => by cases e <;> simp [number]
    | 1 =>
      refine (hoverflow.reads.map (fun x => timerOverflow x.1 x.2) fun _ _ => rfl).of_iff
        fun e => ?_
      cases e <;> simp [number]
    | 2 => exact reads_single rfl fun e => by cases e <;> simp [number]
    | 3 => exact reads_single rfl fun e => by cases e <;> simp [number]
  have hreads : Reads Event.codec.get (fun e => (tag 4).form e.number ++ e.payload)
      fun e => ∃ kind, True ∧ e.number = kind := by
    refine htag.reads.bind hpayload ?_
    rintro kind e - rfl
    rfl
  exact .of_form hput (hreads.of_iff fun e => by simp)

end Event

/-! ## Systems and sessions -/

/-- The sizes of the memories fit into the 64 bits that they are written in. -/
def Memory.Storable (m : Memory) : Prop :=
  m.main.size < 256 ^ 8 ∧ m.shared.size < 256 ^ 8 ∧ m.work.size < 256 ^ 8

theorem Memory.lawful_codec : Lawful Memory.codec Memory.Storable :=
  ((lawful_blob.pair <| lawful_blob.pair <| lawful_blob.pair <|
    (faithful_block instTcmSize).pair <| (faithful_block dataTcmSize).pair <|
    PerProcessor.faithful_codec faithful_u8).iso (fun _ => rfl) fun _ => rfl).of_iff
    fun m => by simp [Memory.Storable]

/-- A system that can be written. -/
structure System.Storable (s : System) : Prop where
  memory : s.memory.Storable
  queue : s.queue.events.length ≤ EventQueue.capacity

theorem System.lawful_codec :
    Lawful System.codec fun s => s.Storable ∧ s.config = {} ∧ s.running = false := by
  have hqueue := EventQueue.lawful_codec Event.faithful_codec
  refine ((Memory.lawful_codec.pair <|
    Lawful.pair (PerProcessor.faithful_codec InterruptController.faithful_codec) <|
    Lawful.pair (PerProcessor.faithful_codec Timers.faithful_codec) <|
    Lawful.pair Ipc.faithful_codec <| Lawful.pair SystemControl.faithful_codec <|
    Lawful.pair Divider.faithful_codec <| Lawful.pair SquareRoot.faithful_codec hqueue).imap
    fun _ _ => rfl).of_iff fun s => ⟨?_, ?_⟩
  · rintro ⟨⟨hmemory, -, -, -, -, -, -, hqueue⟩, heq⟩
    rw [← heq]
    exact ⟨⟨hmemory, hqueue⟩, rfl, rfl⟩
  · rintro ⟨⟨hmemory, hqueue⟩, hconfig, hrunning⟩
    refine ⟨⟨hmemory, trivial, trivial, trivial, trivial, trivial, trivial, hqueue⟩, ?_⟩
    rw [← hconfig, ← hrunning]

/-- A session has a saved form if its system has one. -/
theorem Session.lawful_codec : Lawful Session.codec fun s =>
    s.system.Storable ∧ s.system.config = {} ∧ s.system.running = false :=
  ((Lawful.pair (PerProcessor.faithful_codec CpuState.faithful_codec) <|
    System.lawful_codec.pair (PerProcessor.faithful_codec faithful_u64)).iso
    (fun _ => rfl) fun _ => rfl).of_iff fun s => by simp

end Console
end Handheld
