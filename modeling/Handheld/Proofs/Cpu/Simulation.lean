import Mathlib
import Handheld.Cpu.Arithmetic
import Handheld.Cpu.BlockTransfer
import Handheld.Proofs.Word

/-!
# Cores in lockstep

A core is a program over the system that it is connected to. Two cores whose callbacks agree on
related boards execute every instruction alike and leave the boards related. With a core and
itself, and boards related to themselves, this says what an instruction preserves.

* `CpuState.Move` lists the ways in which an instruction changes the processor's own state,
  exceptions apart;
* `Related` relates two computations, with a rule for each way to put them together;
* `Simulation` says that the callbacks of two cores agree; the lemmas behind it follow the
  functions out of which instructions are put together.
-/

namespace Handheld

variable {σ τ : Type}

/-! ## Changes of the processor's state -/

namespace CpuState

/-- The bits of the status register that user mode cannot change: the mode and the two interrupt
masks. -/
def guardedBits (status : UInt32) : UInt32 := status &&& 0xDF

/-- A change that an instruction makes to the processor's state in one go. In user mode the
guarded bits of the status stay as they are. -/
inductive Move (s : CpuState) : CpuState → Prop
  | reg (r : Register) (value : UInt32) : Move s (s.setReg r value)
  | userReg (r : Register) (value : UInt32) : Move s (s.setRegInMode .user r value)
  | flags (status : UInt32) (h : guardedBits status = guardedBits s.cpsr) :
    Move s { s with cpsr := status }
  | status (value : UInt32) (h : s.mode = .user → guardedBits value = guardedBits s.cpsr) :
    Move s (s.setCpsr value)
  | saved (value : UInt32) : Move s (s.setSavedStatus value)
  | prefetch (pipeline : Vector UInt32 2) (pipelineValid : Bool) (accessType : Access)
    (isHalted : Bool) : Move s { s with pipeline, pipelineValid, accessType, isHalted }

/-- Several changes, one after the other. -/
abbrev Moves : CpuState → CpuState → Prop := Relation.ReflTransGen Move

theorem Move.moves {s t : CpuState} (h : s.Move t) : s.Moves t := .single h

/-! ### Guarded bits -/

theorem guardedBits_or (a b : UInt32) :
    guardedBits (a ||| b) = guardedBits a ||| guardedBits b := Word.or_and a b _

/-- A mask that covers the guarded bits keeps them. -/
theorem guardedBits_and {mask : UInt32} (h : guardedBits mask = 0xDF) (status : UInt32) :
    guardedBits (status &&& mask) = guardedBits status := by
  unfold guardedBits at h ⊢
  rw [UInt32.and_assoc, h]

/-- A mask beside the guarded bits clears them. -/
theorem guardedBits_and_eq_zero {mask : UInt32} (h : guardedBits mask = 0) (status : UInt32) :
    guardedBits (status &&& mask) = 0 := by
  unfold guardedBits at h ⊢
  rw [UInt32.and_assoc, h, UInt32.and_zero]

theorem guardedBits_setBit (status : UInt32) {f : Flag} (h : f ≠ .irqDisable)
    (h' : f ≠ .fiqDisable) (state : Bool) :
    guardedBits (Word.setBit status f.position state) = guardedBits status := by
  unfold Word.setBit
  have hnew : guardedBits (Word.ofNat state.toNat <<< Word.ofNat f.position) = 0 := by
    cases f <;> cases state <;> first | rfl | contradiction
  have hold : guardedBits (~~~(Word.ofNat 1 <<< Word.ofNat f.position)) = 0xDF := by
    cases f <;> first | rfl | contradiction
  rw [guardedBits_or, guardedBits_and hold, hnew, UInt32.or_zero]

theorem guardedBits_withNZ (status value : UInt32) :
    guardedBits (Arithmetic.withNZ status value) = guardedBits status := by
  have hzero : guardedBits (if value = 0 then 0x40000000 else 0) = 0 := by split <;> rfl
  rw [Arithmetic.withNZ, guardedBits_or, guardedBits_or, guardedBits_and rfl, hzero,
    guardedBits_and_eq_zero rfl, UInt32.or_zero, UInt32.or_zero]

theorem guardedBits_withNZC (status value : UInt32) (carry : Bool) :
    guardedBits (Arithmetic.withNZC status value carry) = guardedBits status := by
  have hzero : guardedBits (if value = 0 then 0x40000000 else 0) = 0 := by split <;> rfl
  have hcarry : guardedBits (if carry then 0x20000000 else 0) = 0 := by split <;> rfl
  rw [Arithmetic.withNZC, guardedBits_or, guardedBits_or, guardedBits_or, guardedBits_and rfl,
    hzero, guardedBits_and_eq_zero rfl, hcarry, UInt32.or_zero, UInt32.or_zero, UInt32.or_zero]

theorem guardedBits_withSum (status : UInt32) (sum : Sum32) :
    guardedBits (Arithmetic.withSum status sum) = guardedBits status := by
  have hbit := guardedBits_setBit (Arithmetic.withNZC status sum.value sum.carry)
    (f := .overflow) (by decide) (by decide) sum.overflow
  rw [guardedBits_withNZC] at hbit
  exact hbit

/-! ### Changes in use -/

/-- A flag that is not guarded can be set. -/
theorem Move.setFlag (s : CpuState) {f : Flag} (h : f ≠ .irqDisable) (h' : f ≠ .fiqDisable)
    (state : Bool) : s.Move (s.setFlag f state) := .flags _ (guardedBits_setBit s.cpsr h h' state)

/-- A return from an exception leaves the guarded bits alone in user mode, which has no saved
status. -/
theorem Move.restore (s : CpuState) : s.Move (s.setCpsr s.savedStatus) := by
  refine .status _ fun hmode => ?_
  -- User mode has no saved status, and what is read in its place is the status itself.
  have hsaved : s.savedStatus = s.cpsr := by
    rw [savedStatus, if_neg]
    rw [hmode]
    decide
  rw [hsaved]

end CpuState

/-! ## Related computations -/

/-- On related boards both actions give the same result and related boards. -/
def Agree {α : Type} (R : Board σ → Board τ → Prop) (f : BoardM σ α) (g : BoardM τ α) : Prop :=
  ∀ b e, R b e → (f b).1 = (g e).1 ∧ R (f b).2 (g e).2

namespace Agree

variable {α β : Type} {R : Board σ → Board τ → Prop}

theorem pure (a : α) : Agree R (Pure.pure a : BoardM σ α) (Pure.pure a) := fun _ _ h => ⟨rfl, h⟩

theorem bind {f : BoardM σ α} {g : BoardM τ α} {k : α → BoardM σ β} {l : α → BoardM τ β}
    (hf : Agree R f g) (hk : ∀ a, Agree R (k a) (l a)) : Agree R (f >>= k) (g >>= l) := by
  intro b e h
  obtain ⟨hvalue, hboard⟩ := hf b e h
  have hrest := hk (f b).1 _ _ hboard
  show (k (f b).1 (f b).2).1 = (l (g e).1 (g e).2).1 ∧ R (k (f b).1 (f b).2).2 (l (g e).1 (g e).2).2
  rw [← hvalue]
  exact hrest

end Agree

/-- Machines on related boards that have taken the same time. -/
structure Alike (R : Board σ → Board τ → Prop) (m : Machine σ) (n : Machine τ) : Prop where
  board : R m.toBoard n.toBoard
  cycles : m.cycles = n.cycles

/-- On machines that are alike both computations give the same result and leave them alike. -/
def Related {α : Type} (R : Board σ → Board τ → Prop) (f : MachineM σ α) (g : MachineM τ α) :
    Prop :=
  ∀ m n, Alike R m n → (f m).1 = (g n).1 ∧ Alike R (f m).2 (g n).2

namespace Related

open MachineM

variable {α β : Type} {R : Board σ → Board τ → Prop}

theorem pure (a : α) : Related R (Pure.pure a : MachineM σ α) (Pure.pure a) :=
  fun _ _ h => ⟨rfl, h⟩

theorem bind {f : MachineM σ α} {g : MachineM τ α} {k : α → MachineM σ β} {l : α → MachineM τ β}
    (hf : Related R f g) (hk : ∀ a, Related R (k a) (l a)) : Related R (f >>= k) (g >>= l) := by
  intro m n h
  obtain ⟨hvalue, halike⟩ := hf m n h
  have hrest := hk (f m).1 _ _ halike
  rw [hvalue] at hrest
  show (k (f m).1 (f m).2).1 = (l (g n).1 (g n).2).1 ∧
    Alike R (k (f m).1 (f m).2).2 (l (g n).1 (g n).2).2
  rw [hvalue]
  exact hrest

/-- The second of two computations does not see the result of the first. -/
theorem seq {f : MachineM σ Unit} {g : MachineM τ Unit} {k : MachineM σ β} {l : MachineM τ β}
    (hf : Related R f g) (hk : Related R k l) :
    Related R (f >>= fun _ => k) (g >>= fun _ => l) := hf.bind fun _ => hk

theorem ite {p : Prop} [Decidable p] {f f' : MachineM σ α} {g g' : MachineM τ α}
    (hf : Related R f g) (hf' : Related R f' g') :
    Related R (if p then f else f') (if p then g else g') := by
  by_cases h : p
  · rw [if_pos h, if_pos h]
    exact hf
  · rw [if_neg h, if_neg h]
    exact hf'

/-- A computation that is left out under a condition, and what follows in either case. -/
theorem optional {p : Prop} [Decidable p] {f : MachineM σ Unit} {g : MachineM τ Unit}
    {k : Unit → MachineM σ β} {l : Unit → MachineM τ β} (hf : Related R f g)
    (hk : Related R (k ()) (l ())) :
    Related R (if p then f >>= k else k ()) (if p then g >>= l else l ()) :=
  .ite (hf.bind fun _ => hk) hk

theorem onBoard {f : BoardM σ α} {g : BoardM τ α} (h : Agree R f g) :
    Related R (onBoard f) (onBoard g) := by
  intro m n hmn
  obtain ⟨hvalue, hboard⟩ := h _ _ hmn.board
  exact ⟨hvalue, hboard, hmn.cycles⟩

theorem tick (cycles : UInt64) : Related R (tick cycles) (tick cycles) := by
  intro m n h
  refine ⟨rfl, h.board, ?_⟩
  show m.cycles + cycles = n.cycles + cycles
  rw [h.cycles]

end Related

/-! ## Block transfers in parts -/

namespace Core

open MachineM

variable (core : Core σ)

/-- Go to the loaded program counter, if there is one. -/
def endTransfer (statusBit : Bool) : Option UInt32 → MachineM σ Unit
  | none => return
  | some address =>
    if statusBit then do
      change fun s => s.setCpsr s.savedStatus
      core.jump address
    else core.setLoaded Register.pc address

/-- What a block transfer does behind the transfers themselves. -/
def finishTransfer (n : Register) (newBase : UInt32) (moves load statusBit : Bool)
    (target : Option UInt32) : MachineM σ Unit := do
  if moves then putReg n newBase
  if load then idle else setAccess Access.nonSequential
  core.endTransfer statusBit target

theorem blockTransfer_eq (n : Register) (set : UInt16) (t : BlockTransfer) :
    core.blockTransfer n set t =
      (let list := Register.ofSet set
       if list.isEmpty then do
         core.transferNothing n t
         if t.load then idle else setAccess Access.nonSequential
       else do
         let base ← reg n
         let newBase := t.newBase base list.length
         let lowest := t.lowest base list.length
         let userBank := t.userBank list
         let finish :=
           core.finishTransfer n newBase (t.movesBase core.processor.isV5 n list) t.load t.statusBit
         if t.load then do finish (← core.loadBlock userBank list lowest Access.nonSequential)
         else do
           core.storeBlock (core.storedValue n list.head? newBase userBank) list lowest
             Access.nonSequential
           finish none) := by
  unfold blockTransfer finishTransfer endTransfer
  rfl

theorem blockTransfer_of_store {n : Register} {set : UInt16} {t : BlockTransfer}
    (hlist : Register.ofSet set ≠ []) (hstore : t.load = false) (m : Machine σ) :
    let list := Register.ofSet set
    let newBase := t.newBase (m.cpu.reg n) list.length
    core.blockTransfer n set t m =
      core.finishTransfer n newBase (t.movesBase core.processor.isV5 n list) false t.statusBit none
        (core.storeBlock (core.storedValue n list.head? newBase (t.userBank list)) list
          (t.lowest (m.cpu.reg n) list.length) Access.nonSequential m).2 := by
  rw [blockTransfer_eq]
  simp only [hstore, List.isEmpty_iff, hlist, if_false, Bool.false_eq_true]
  rfl

theorem blockTransfer_of_load {n : Register} {set : UInt16} {t : BlockTransfer}
    (hlist : Register.ofSet set ≠ []) (hload : t.load = true) (m : Machine σ) :
    let list := Register.ofSet set
    let loaded := core.loadBlock (t.userBank list) list (t.lowest (m.cpu.reg n) list.length)
      Access.nonSequential m
    core.blockTransfer n set t m =
      core.finishTransfer n (t.newBase (m.cpu.reg n) list.length)
        (t.movesBase core.processor.isV5 n list) true t.statusBit loaded.1 loaded.2 := by
  rw [blockTransfer_eq]
  simp only [hload, List.isEmpty_iff, hlist, if_false, if_true]
  rfl

end Core

/-! ## Simulations -/

/-- The callbacks of two cores agree on related boards, which show the same processor and stay
related while an instruction changes it. -/
structure Simulation (c : Core σ) (d : Core τ) (R : Board σ → Board τ → Prop) : Prop where
  processor : c.processor = d.processor
  cpu : ∀ {b e}, R b e → b.cpu = e.cpu
  move : ∀ {b e s}, R b e → b.cpu.Move s → R { b with cpu := s } { e with cpu := s }
  report : ∀ entry, Agree R (BoardM.report entry) (BoardM.report entry)
  interrupts : ∀ {b e}, R b e → c.interrupts b.system = d.interrupts e.system
  read : ∀ w address, Agree R (c.read w address) (d.read w address)
  write : ∀ w address value, Agree R (c.write w address value) (d.write w address value)
  waitTime : ∀ w address access,
    Agree R (c.waitTime w address access) (d.waitTime w address access)
  controlRead : ∀ cn cm cp, Agree R (c.controlRead cn cm cp) (d.controlRead cn cm cp)
  controlWrite : ∀ cn cm cp value,
    Agree R (c.controlWrite cn cm cp value) (d.controlWrite cn cm cp value)

namespace Simulation

open MachineM CpuState

variable {α : Type} {c : Core σ} {d : Core τ} {R : Board σ → Board τ → Prop}

/-! ### The processor's state -/

theorem moves (sim : Simulation c d R) {b : Board σ} {e : Board τ} {s : CpuState} (h : R b e)
    (hs : b.cpu.Moves s) : R { b with cpu := s } { e with cpu := s } := by
  induction hs with
  | refl =>
    have hcpu := sim.cpu h
    show R { b with cpu := b.cpu } { e with cpu := b.cpu }
    rw [hcpu]
    exact h
  | tail _ hmove ih =>
    have hnext := sim.move ih hmove
    exact hnext

theorem view (sim : Simulation c d R) (f : CpuState → α) : Related R (view f) (view f) := by
  intro m n h
  refine ⟨?_, h⟩
  show f m.cpu = f n.cpu
  rw [sim.cpu h.board]

theorem change (sim : Simulation c d R) {f : CpuState → CpuState}
    (hf : ∀ s : CpuState, s.Moves (f s)) :
    Related R (change f) (change f) := by
  intro m n h
  refine ⟨rfl, ?_, h.cycles⟩
  show R { m.toBoard with cpu := f m.cpu } { n.toBoard with cpu := f n.cpu }
  rw [← sim.cpu h.board]
  exact sim.moves h.board (hf m.cpu)

/-- A change by what was just read from the state. -/
theorem view_change (sim : Simulation c d R) {f : CpuState → α} {g : α → CpuState → CpuState}
    (hg : ∀ s : CpuState, s.Moves (g (f s) s)) {k : α → MachineM σ Unit} {l : α → MachineM τ Unit}
    (hk : ∀ a, Related R (k a) (l a)) :
    Related R (MachineM.view f >>= fun a => MachineM.change (g a) >>= fun _ => k a)
      (MachineM.view f >>= fun a => MachineM.change (g a) >>= fun _ => l a) := by
  intro m n h
  let both : CpuState → CpuState := fun s => g (f s) s
  obtain ⟨-, hmoved⟩ := sim.change (f := both) hg m n h
  have hrest := hk (f m.cpu) _ _ hmoved
  have hvalue : f m.cpu = f n.cpu := by rw [sim.cpu h.board]
  show (k (f m.cpu) (MachineM.change both m).2).1 = (l (f n.cpu) (MachineM.change both n).2).1 ∧
    Alike R (k (f m.cpu) (MachineM.change both m).2).2 (l (f n.cpu) (MachineM.change both n).2).2
  rw [← hvalue]
  exact hrest

theorem reg (sim : Simulation c d R) (r : Register) : Related R (reg r) (reg r) := sim.view _

theorem low (sim : Simulation c d R) (r : LowRegister) : Related R (low r) (low r) := sim.view _

theorem putReg (sim : Simulation c d R) (r : Register) (value : UInt32) :
    Related R (putReg r value) (putReg r value) :=
  sim.change fun _ => (Move.reg r value).moves

theorem putLow (sim : Simulation c d R) (r : LowRegister) (value : UInt32) :
    Related R (putLow r value) (putLow r value) := sim.putReg r.wide value

theorem setFlag (sim : Simulation c d R) {f : Flag} (h : f ≠ .irqDisable) (h' : f ≠ .fiqDisable)
    (state : Bool) : Related R (setFlag f state) (setFlag f state) :=
  sim.change fun s => (Move.setFlag s h h' state).moves

theorem setAccess (sim : Simulation c d R) (access : Access) :
    Related R (setAccess access) (setAccess access) :=
  sim.change fun _ => (Move.prefetch _ _ access _).moves

theorem idle (sim : Simulation c d R) : Related R idle idle :=
  (Related.tick 1).seq (sim.setAccess _)

theorem note (sim : Simulation c d R) (entry : LogEntry) : Related R (note entry) (note entry) :=
  .onBoard (sim.report entry)

theorem restore (sim : Simulation c d R) :
    Related R (MachineM.change fun s => s.setCpsr s.savedStatus)
      (MachineM.change fun s => s.setCpsr s.savedStatus) :=
  sim.change fun s => (Move.restore s).moves

/-! ### Memory -/

theorem wait (sim : Simulation c d R) (w : Width) (address : UInt32) (access : Access) :
    Related R (c.wait w address access) (d.wait w address access) :=
  (Related.onBoard (sim.waitTime w address access)).bind fun _ => .tick _

theorem peek (sim : Simulation c d R) (w : Width) (address : UInt32) :
    Related R (c.peek w address) (d.peek w address) :=
  (Related.onBoard (sim.read w address)).bind fun _ => .pure _

theorem load (sim : Simulation c d R) (w : Width) (address : UInt32) (access : Access) :
    Related R (c.load w address access) (d.load w address access) := by
  unfold Core.load
  rw [sim.processor]
  refine (sim.wait w address access).seq ?_
  exact (sim.peek w address).bind fun _ => .pure _

theorem store (sim : Simulation c d R) (w : Width) (address value : UInt32) (access : Access) :
    Related R (c.store w address value access) (d.store w address value access) :=
  (sim.wait w address access).seq (.onBoard (sim.write w address _))

theorem loadRotated (sim : Simulation c d R) (address : UInt32) (access : Access) :
    Related R (c.loadRotated address access) (d.loadRotated address access) :=
  (sim.load .word address access).bind fun _ => .pure _

theorem loadSignedHalf (sim : Simulation c d R) (address : UInt32) (access : Access) :
    Related R (c.loadSignedHalf address access) (d.loadSignedHalf address access) := by
  unfold Core.loadSignedHalf
  rw [sim.processor]
  refine (sim.wait .half address access).seq ?_
  exact (sim.peek .half address).bind fun _ => .pure _

theorem loadSignedByte (sim : Simulation c d R) (address : UInt32) (access : Access) :
    Related R (c.loadSignedByte address access) (d.loadSignedByte address access) :=
  (sim.load .byte address access).bind fun _ => .pure _

/-! ### Jumps -/

theorem bumpPc (sim : Simulation c d R) (count : UInt32) :
    Related R (MachineM.change (·.bumpPc count)) (MachineM.change (·.bumpPc count)) :=
  sim.change fun _ => (Move.reg _ _).moves

theorem refill (sim : Simulation c d R) : Related R c.refill d.refill := by
  unfold Core.refill
  refine (sim.view _).bind fun w => (sim.view _).bind fun first => ?_
  refine (sim.wait w first _).seq ((sim.bumpPc _).seq ?_)
  refine (sim.view _).bind fun second => (sim.wait w second _).seq ?_
  exact sim.change fun _ => (Move.prefetch _ _ _ _).moves

theorem jump (sim : Simulation c d R) (address : UInt32) :
    Related R (c.jump address) (d.jump address) :=
  (sim.change fun _ => (Move.reg _ _).moves).seq sim.refill

theorem jumpBy (sim : Simulation c d R) (offset : Int32) :
    Related R (c.jumpBy offset) (d.jumpBy offset) := (sim.view _).bind fun _ => sim.jump _

theorem exchange (sim : Simulation c d R) (address : UInt32) :
    Related R (c.exchange address) (d.exchange address) :=
  (sim.setFlag (by decide) (by decide) _).seq (sim.jump address)

theorem setReg (sim : Simulation c d R) (r : Register) (value : UInt32) :
    Related R (c.setReg r value) (d.setReg r value) :=
  .ite (sim.jump value) (sim.putReg r value)

theorem setLoaded (sim : Simulation c d R) (r : Register) (value : UInt32) :
    Related R (c.setLoaded r value) (d.setLoaded r value) := by
  unfold Core.setLoaded
  rw [sim.processor]
  exact .ite (.ite (sim.exchange value) (sim.jump value)) (sim.putReg r value)

/-! ### Fetching -/

theorem revalidate (sim : Simulation c d R) : Related R c.revalidate d.revalidate := by
  unfold Core.revalidate
  refine (sim.view _).bind fun valid => .ite ?_ (.pure _)
  refine (sim.view _).bind fun pc => (sim.view _).bind fun w => ?_
  refine (sim.peek w _).bind fun first => (sim.peek w pc).bind fun second => ?_
  exact sim.change fun _ => (Move.prefetch _ _ _ _).moves

theorem fetch (sim : Simulation c d R) (w : Width) : Related R (c.fetch w) (d.fetch w) := by
  unfold Core.fetch
  refine (sim.bumpPc _).seq ?_
  refine (sim.view _).bind fun pc => (sim.view _).bind fun access => ?_
  refine (sim.wait w pc _).seq ((sim.peek w pc).bind fun incoming => ?_)
  refine (sim.view _).bind fun inst => ?_
  exact (sim.change fun _ => (Move.prefetch _ _ _ _).moves).seq (.pure inst)

theorem skipUnknown (sim : Simulation c d R) (inst : UInt32) :
    Related R (c.skipUnknown inst) (d.skipUnknown inst) := by
  unfold Core.skipUnknown
  rw [sim.processor]
  exact (sim.view _).bind fun _ => sim.note _

/-! ### Multiplication -/

theorem multiplyIdle (sim : Simulation c d R) (multiplier : UInt32) (isSigned : Bool) :
    Related R (Core.multiplyIdle multiplier isSigned) (Core.multiplyIdle multiplier isSigned) :=
  sim.idle.seq (.tick _)

/-! ### Block transfers -/

/-- The end of a transfer: an extra cycle behind a load. -/
theorem afterTransfer (sim : Simulation c d R) (load : Bool) :
    Related R (if load then MachineM.idle else MachineM.setAccess Access.nonSequential)
      (if load then MachineM.idle else MachineM.setAccess Access.nonSequential) :=
  .ite sim.idle (sim.setAccess _)

theorem transferNothing (sim : Simulation c d R) (n : Register) (t : BlockTransfer) :
    Related R (c.transferNothing n t) (d.transferNothing n t) := by
  unfold Core.transferNothing
  rw [sim.processor]
  refine (sim.reg n).bind fun base => (sim.setReg n _).seq (.ite (.ite ?_ ?_) (.pure _))
  · exact (sim.load .word _ _).bind fun _ => sim.jump _
  · exact (sim.view _).bind fun _ => sim.store .word _ _ _

theorem storeBlock (sim : Simulation c d R) (value : Register → CpuState → UInt32)
    (list : List Register) (address : UInt32) (access : Access) :
    Related R (c.storeBlock value list address access)
      (d.storeBlock value list address access) := by
  induction list generalizing address access with
  | nil => exact .pure _
  | cons r list ih =>
    exact (sim.view _).bind fun _ => (sim.store .word address _ access).seq (ih _ _)

theorem loadBlock (sim : Simulation c d R) (userBank : Bool) (list : List Register)
    (address : UInt32) (access : Access) :
    Related R (c.loadBlock userBank list address access)
      (d.loadBlock userBank list address access) := by
  induction list generalizing address access with
  | nil => exact .pure _
  | cons r list ih =>
    unfold Core.loadBlock
    -- The program counter is only handed on; the others go to their registers one by one.
    refine (sim.load .word address access).bind fun value => .ite ?_ ?_
    · exact (ih _ _).bind fun _ => .pure _
    · refine (sim.change fun s => ?_).seq (ih _ _)
      split
      · exact (Move.userReg r value).moves
      · exact (Move.reg r value).moves

theorem finishTransfer (sim : Simulation c d R) (n : Register) (newBase : UInt32)
    (moves load statusBit : Bool) (target : Option UInt32) :
    Related R (c.finishTransfer n newBase moves load statusBit target)
      (d.finishTransfer n newBase moves load statusBit target) := by
  have hend : Related R (c.endTransfer statusBit target) (d.endTransfer statusBit target) := by
    cases target with
    | none => exact .pure _
    | some address => exact .ite (sim.restore.seq (sim.jump address)) (sim.setLoaded _ address)
  -- What follows the write to the base is the same whether the base is written or not.
  have haccess := Related.ite (p := load = true) (sim.idle.seq hend)
    ((sim.setAccess Access.nonSequential).seq hend)
  exact .ite ((sim.putReg n newBase).seq haccess) haccess

theorem blockTransfer (sim : Simulation c d R) (n : Register) (set : UInt16) (t : BlockTransfer) :
    Related R (c.blockTransfer n set t) (d.blockTransfer n set t) := by
  rw [Core.blockTransfer_eq, Core.blockTransfer_eq]
  unfold Core.storedValue
  rw [sim.processor]
  refine .ite ((sim.transferNothing n t).seq (sim.afterTransfer _)) ?_
  refine (sim.reg n).bind fun base => .ite ?_ ?_
  · exact (sim.loadBlock _ _ _ _).bind fun target => sim.finishTransfer _ _ _ _ _ target
  · exact (sim.storeBlock _ _ _ _).seq (sim.finishTransfer _ _ _ _ _ none)

end Simulation
end Handheld
