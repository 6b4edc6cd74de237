import Handheld.Proofs.Cpu.BlockTransfer
import Handheld.Proofs.Cpu.Status

/-!
# The course of execution

Where a processor executes is given by its program counter, its instruction set and the two
prefetched opcodes. Almost every instruction leaves all of these alone or ends in a jump, and a
jump aligns the program counter and makes the prefetched opcodes stale. The few instructions that
do neither are said to skid.

* `CpuState.SameCourse` says that two states execute at the same place;
* `Keeps` and `Lands` say what a computation makes of a property of such places, with a rule for
  each way to put computations together;
* `Core.Steady` lists what a property needs for both instruction sets to keep it, and the lemmas
  behind it follow them class by class.
-/

namespace Handheld

open Word

variable {σ α β : Type}

namespace CpuState

/-! ## Places -/

/-- The second state executes at the same place as the first. -/
structure SameCourse (s t : CpuState) : Prop where
  pc : t.pc = s.pc
  thumb : t.isFlag .thumb = s.isFlag .thumb
  pipeline : t.pipeline = s.pipeline
  pipelineValid : t.pipelineValid = s.pipelineValid

/-- The second state has the program counter and the status of the first. -/
structure SamePlace (s t : CpuState) : Prop where
  pc : t.pc = s.pc
  cpsr : t.cpsr = s.cpsr

/-- The program counter is a multiple of the size of an instruction. -/
def Aligned (s : CpuState) : Prop := s.instructionSize.toNat ∣ s.pc.toNat

variable {s t u : CpuState}

theorem SameCourse.refl (s : CpuState) : s.SameCourse s := ⟨rfl, rfl, rfl, rfl⟩

theorem SameCourse.trans (h : s.SameCourse t) (h' : t.SameCourse u) : s.SameCourse u where
  pc := h'.pc.trans h.pc
  thumb := h'.thumb.trans h.thumb
  pipeline := h'.pipeline.trans h.pipeline
  pipelineValid := h'.pipelineValid.trans h.pipelineValid

theorem isFlag_congr (h : t.cpsr = s.cpsr) (f : Flag) : t.isFlag f = s.isFlag f := by
  rw [isFlag, h, isFlag]

theorem SamePlace.isFlag (h : s.SamePlace t) (f : Flag) : t.isFlag f = s.isFlag f :=
  isFlag_congr h.cpsr f

theorem instructionSize_congr (h : t.isFlag .thumb = s.isFlag .thumb) :
    t.instructionSize = s.instructionSize := by
  rw [instructionSize, h, instructionSize]

theorem toNat_instructionSize (s : CpuState) :
    s.instructionSize.toNat = if s.isFlag .thumb then 2 else 4 := by
  unfold instructionSize
  split <;> rfl

/-- The size of an instruction is a power of two. -/
theorem instructionSize_eq_two_pow (s : CpuState) : ∃ k ≤ 2, s.instructionSize.toNat = 2 ^ k := by
  rw [toNat_instructionSize]
  split
  · exact ⟨1, by decide, rfl⟩
  · exact ⟨2, by decide, rfl⟩

theorem Aligned.congr (h : s.SameCourse t) (hs : s.Aligned) : t.Aligned := by
  unfold Aligned at hs ⊢
  rw [h.pc, instructionSize_congr h.thumb]
  exact hs

/-- An address of a word is one in either instruction set. -/
theorem aligned_of_four_dvd (h : 4 ∣ s.pc.toNat) : s.Aligned := by
  unfold Aligned
  rw [toNat_instructionSize]
  split
  · exact Dvd.dvd.trans (by decide) h
  · exact h

/-- An address that was rounded down, moved by a multiple of the size, is aligned. -/
theorem dvd_alignDown_add (s : CpuState) (address : UInt32) :
    s.instructionSize.toNat ∣
      (Address.alignDown address s.instructionSize + s.instructionSize).toNat := by
  obtain ⟨k, hk, hsize⟩ := s.instructionSize_eq_two_pow
  -- A sum that wraps around stays a multiple, since the size divides the number of addresses.
  have hwrap : 2 ^ k ∣ 2 ^ 32 := pow_dvd_pow 2 (by omega)
  rw [UInt32.toNat_add, Address.toNat_alignDown address hsize, hsize]
  exact (Nat.dvd_mod_iff hwrap).mpr (Dvd.dvd.add (Dvd.intro_left _ rfl) dvd_rfl)

/-! ### Changes that stay at their place -/

theorem pc_setReg (s : CpuState) {r : Register} (h : r ≠ Register.pc) (value : UInt32) :
    (s.setReg r value).pc = s.pc := by
  rw [pc, reg_setReg, if_neg (Ne.symm h), pc]

theorem SameCourse.setReg (s : CpuState) {r : Register} (h : r ≠ Register.pc) (value : UInt32) :
    s.SameCourse (s.setReg r value) := ⟨pc_setReg s h value, rfl, rfl, rfl⟩

theorem wide_ne_pc (l : LowRegister) : l.wide ≠ Register.pc := by
  simp only [ne_eq, Fin.ext_iff, LowRegister.wide, Fin.val_castLE, Register.val_pc]
  omega

theorem SameCourse.setRegInMode (s : CpuState) (m : Mode) {r : Register} (h : r ≠ Register.pc)
    (value : UInt32) : s.SameCourse (s.setRegInMode m r value) := by
  obtain ⟨hcpsr, -⟩ := status_setRegInMode s m r value
  have hrest : (s.setRegInMode m r value).pipeline = s.pipeline ∧
      (s.setRegInMode m r value).pipelineValid = s.pipelineValid := by
    unfold CpuState.setRegInMode
    cases s.slotOf m r with
    | fiq i fiq => cases fiq <;> exact ⟨rfl, rfl⟩
    | active | sp | lr => exact ⟨rfl, rfl⟩
  refine ⟨?_, ?_, hrest.1, hrest.2⟩
  · -- The file keeps registers of different numbers apart.
    have hpc : PhysicalRegister.pc ≠ r.physical m := by
      intro heq
      have hnumber := congrArg PhysicalRegister.number heq
      rw [Register.number_physical] at hnumber
      exact h hnumber.symm
    show (s.setRegInMode m r value).physicalValue .pc = s.physicalValue .pc
    rw [physicalValue_setRegInMode, Function.update_of_ne hpc]
  · exact isFlag_congr hcpsr .thumb

theorem SameCourse.withStatus (s : CpuState) {status : UInt32}
    (h : isBit status 5 = s.isFlag .thumb) : s.SameCourse { s with cpsr := status } :=
  ⟨rfl, h, rfl, rfl⟩

theorem SameCourse.setCpsr (s : CpuState) {status : UInt32}
    (h : isBit status 5 = s.isFlag .thumb) : s.SameCourse (s.setCpsr status) :=
  ⟨reg_setCpsr_pc s status, h, rfl, rfl⟩

theorem SameCourse.setFlag (s : CpuState) {f : Flag} (h : f ≠ .thumb) (state : Bool) :
    s.SameCourse (s.setFlag f state) := by
  have hposition : f.position < 32 ∧ 5 ≠ f.position := by
    cases f <;> first | decide | contradiction
  refine .withStatus s ?_
  rw [isBit_setBit _ _ hposition.1 (by decide), if_neg hposition.2]
  rfl

theorem SameCourse.setSavedStatus (s : CpuState) (value : UInt32) :
    s.SameCourse (s.setSavedStatus value) := by
  unfold CpuState.setSavedStatus
  split
  · exact ⟨rfl, rfl, rfl, rfl⟩
  · exact .refl s

/-- The base of a block transfer moves by whole words. -/
theorem four_dvd_newBase (t : BlockTransfer) {base : UInt32} (h : 4 ∣ base.toNat) (count : ℕ) :
    4 ∣ (t.newBase base count).toNat := by
  have hwrap : 4 ∣ 2 ^ 32 := by norm_num
  have hfour : (4 : UInt32).toNat = 4 := rfl
  have hdistance : 4 ∣ (4 * UInt32.ofNat count).toNat := by
    rw [UInt32.toNat_mul, hfour]
    exact (Nat.dvd_mod_iff hwrap).mpr (Dvd.intro _ rfl)
  unfold BlockTransfer.newBase Address.move
  split
  · rw [UInt32.toNat_add]
    exact (Nat.dvd_mod_iff hwrap).mpr (Dvd.dvd.add h hdistance)
  · rw [UInt32.toNat_sub]
    refine (Nat.dvd_mod_iff hwrap).mpr (Dvd.dvd.add ?_ h)
    exact Nat.dvd_sub hwrap hdistance

end CpuState

/-! ## Computations -/

/-- The computation leaves the processor in a state with the property if it finds it in one. -/
structure Keeps (P : CpuState → Prop) (f : MachineM σ α) : Prop where
  cpu : ∀ m, P m.cpu → P (f m).2.cpu

/-- The computation leaves the processor in a state with the property wherever it starts. -/
structure Lands (P : CpuState → Prop) (f : MachineM σ α) : Prop where
  cpu : ∀ m, P (f m).2.cpu

namespace Lands

variable {P : CpuState → Prop} {f g : MachineM σ α} {k : α → MachineM σ β}

theorem keeps (h : Lands P f) : Keeps P f := ⟨fun m _ => h.cpu m⟩

theorem after (hk : ∀ x, Lands P (k x)) : Lands P (f >>= k) := ⟨fun m => (hk (f m).1).cpu (f m).2⟩

theorem bind (hf : Lands P f) (hk : ∀ x, Keeps P (k x)) : Lands P (f >>= k) :=
  ⟨fun m => (hk (f m).1).cpu (f m).2 (hf.cpu m)⟩

theorem ite {p : Prop} [Decidable p] (hf : Lands P f) (hg : Lands P g) :
    Lands P (if p then f else g) := by
  by_cases h : p
  · rw [if_pos h]
    exact hf
  · rw [if_neg h]
    exact hg

end Lands

namespace Keeps

open MachineM

variable {P : CpuState → Prop} {f g : MachineM σ α} {k : α → MachineM σ β}

/-- What leaves the processor alone keeps everything. -/
theorem free (h : ∀ m, (f m).2.cpu = m.cpu) : Keeps P f := by
  refine ⟨fun m hm => ?_⟩
  rw [h]
  exact hm

theorem pure (x : α) : Keeps P (Pure.pure x : MachineM σ α) := free fun _ => rfl

theorem bind (hf : Keeps P f) (hk : ∀ x, Keeps P (k x)) : Keeps P (f >>= k) :=
  ⟨fun m hm => (hk (f m).1).cpu (f m).2 (hf.cpu m hm)⟩

theorem seq {k : MachineM σ β} (hf : Keeps P f) (hk : Keeps P k) : Keeps P (f >>= fun _ => k) :=
  hf.bind fun _ => hk

/-- A branch, with its condition known on either side. -/
theorem branch {p : Prop} [Decidable p] (hf : p → Keeps P f) (hg : ¬ p → Keeps P g) :
    Keeps P (if p then f else g) := by
  by_cases h : p
  · rw [if_pos h]
    exact hf h
  · rw [if_neg h]
    exact hg h

theorem ite {p : Prop} [Decidable p] (hf : Keeps P f) (hg : Keeps P g) :
    Keeps P (if p then f else g) := .branch (fun _ => hf) fun _ => hg

/-- A computation that is left out under a condition, and what follows in either case. -/
theorem optional {p : Prop} [Decidable p] {f : MachineM σ Unit} {k : Unit → MachineM σ β}
    (hf : Keeps P f) (hk : Keeps P (k ())) : Keeps P (if p then f >>= k else k ()) :=
  .ite (hf.bind fun _ => hk) hk

theorem onBoard {act : BoardM σ α} (h : ∀ b, P b.cpu → P (act b).2.cpu) : Keeps P (onBoard act) :=
  ⟨fun m => h m.toBoard⟩

theorem view (f : CpuState → α) : Keeps P (view f : MachineM σ α) := free fun _ => rfl

theorem ask (f : σ → α) : Keeps P (ask f) := free fun _ => rfl

theorem reg (r : Register) : Keeps P (reg r : MachineM σ UInt32) := view _

theorem low (r : LowRegister) : Keeps P (low r : MachineM σ UInt32) := view _

theorem tick (cycles : UInt64) : Keeps P (tick cycles : MachineM σ Unit) := free fun _ => rfl

theorem note (entry : LogEntry) : Keeps P (note entry : MachineM σ Unit) := free fun _ => rfl

end Keeps

namespace Core

open MachineM CpuState

variable (core : Core σ)

/-- A write to a register other than the program counter is no jump. -/
theorem setReg_of_ne_pc {d : Register} (hd : d ≠ Register.pc) (value : UInt32) :
    core.setReg d value = putReg d value := if_neg hd

/-- Every callback changes the processor's state by the relation. -/
structure Within (R : CpuState → CpuState → Prop) : Prop where
  read : ∀ w address b, R b.cpu (core.read w address b).2.cpu
  write : ∀ w address value b, R b.cpu (core.write w address value b).2.cpu
  waitTime : ∀ w address access b, R b.cpu (core.waitTime w address access b).2.cpu
  onException : ∀ e b, R b.cpu (core.onException e b).2.cpu
  nativeCall : ∀ comment b, R b.cpu (core.nativeCall comment b).2.cpu
  controlRead : ∀ cn cm cp b, R b.cpu (core.controlRead cn cm cp b).2.cpu
  controlWrite : ∀ cn cm cp value b, R b.cpu (core.controlWrite cn cm cp value b).2.cpu

theorem Within.mono {core : Core σ} {R S : CpuState → CpuState → Prop} (h : core.Within R)
    (hRS : ∀ s t, R s t → S s t) : core.Within S where
  read w address b := hRS _ _ (h.read w address b)
  write w address value b := hRS _ _ (h.write w address value b)
  waitTime w address access b := hRS _ _ (h.waitTime w address access b)
  onException e b := hRS _ _ (h.onException e b)
  nativeCall comment b := hRS _ _ (h.nativeCall comment b)
  controlRead cn cm cp b := hRS _ _ (h.controlRead cn cm cp b)
  controlWrite cn cm cp value b := hRS _ _ (h.controlWrite cn cm cp value b)

/-! ### Callbacks that leave the place alone -/

theorem Within.wait {core : Core σ} (h : core.Within SamePlace) (w : Width) (address : UInt32)
    (access : Access) (m : Machine σ) : m.cpu.SamePlace (core.wait w address access m).2.cpu :=
  h.waitTime w address access m.toBoard

theorem Within.peek {core : Core σ} (h : core.Within SamePlace) (w : Width) (address : UInt32)
    (m : Machine σ) : m.cpu.SamePlace (core.peek w address m).2.cpu :=
  h.read w address m.toBoard

/-- Filling the pipeline moves the program counter on by one instruction and leaves the status
alone. -/
theorem Within.refill {core : Core σ} (h : core.Within SamePlace) (m : Machine σ) :
    (core.refill m).2.cpu.pc = m.cpu.pc + m.cpu.instructionSize ∧
      (core.refill m).2.cpu.cpsr = m.cpu.cpsr ∧ (core.refill m).2.cpu.pipelineValid = false := by
  let w := instructionWidth m.cpu
  let first := (core.wait w m.cpu.pc (Access.nonSequential ||| Access.code) m).2
  let moved : Machine σ := { first with cpu := first.cpu.bumpPc w.bytes }
  let second := (core.wait w moved.cpu.pc (Access.sequential ||| Access.code) moved).2
  have hfirst : m.cpu.SamePlace first.cpu := h.wait ..
  have hsecond : moved.cpu.SamePlace second.cpu := h.wait ..
  have hmoved : moved.cpu.pc = first.cpu.pc + w.bytes := by
    show (first.cpu.setReg Register.pc _).reg Register.pc = _
    rw [reg_setReg, if_pos rfl]
  rw [core.refill_eq]
  refine ⟨?_, hsecond.cpsr.trans hfirst.cpsr, rfl⟩
  show second.cpu.pc = _
  rw [hsecond.pc, hmoved, hfirst.pc, bytes_instructionWidth]

/-! ### Stable properties -/

/-- A property of the place of execution that no callback takes away. -/
structure Stable (P : CpuState → Prop) : Prop where
  congr : ∀ {s t}, s.SameCourse t → P s → P t
  within : core.Within fun s t => s.SamePlace t ∧ (P s → P t)

/-- A stable property that every state behind a jump has. -/
structure Steady (P : CpuState → Prop) : Prop extends core.Stable P where
  landed : ∀ {s : CpuState}, s.Aligned → s.pipelineValid = false → P s

variable {core : Core σ} {P : CpuState → Prop}

namespace Stable

/-! ## The processor's state -/

theorem change (h : core.Stable P) {f : CpuState → CpuState}
    (hf : ∀ s : CpuState, s.SameCourse (f s)) :
    Keeps P (change f : MachineM σ Unit) := ⟨fun m => h.congr (hf m.cpu)⟩

theorem putReg (h : core.Stable P) {r : Register} (hr : r ≠ Register.pc) (value : UInt32) :
    Keeps P (putReg r value : MachineM σ Unit) := h.change fun s => .setReg s hr value

theorem putLow (h : core.Stable P) (r : LowRegister) (value : UInt32) :
    Keeps P (putLow r value : MachineM σ Unit) := h.putReg (wide_ne_pc r) value

theorem setFlag (h : core.Stable P) {f : Flag} (hf : f ≠ .thumb) (state : Bool) :
    Keeps P (setFlag f state : MachineM σ Unit) := h.change fun s => .setFlag s hf state

theorem setAccess (h : core.Stable P) (access : Access) :
    Keeps P (setAccess access : MachineM σ Unit) := h.change fun _ => ⟨rfl, rfl, rfl, rfl⟩

theorem idle (h : core.Stable P) : Keeps P (idle : MachineM σ Unit) :=
  (Keeps.tick 1).seq (h.setAccess _)

theorem afterTransfer (h : core.Stable P) (load : Bool) :
    Keeps P (if load then MachineM.idle else MachineM.setAccess Access.nonSequential :
      MachineM σ Unit) := .ite h.idle (h.setAccess _)

theorem multiplyIdle (h : core.Stable P) (multiplier : UInt32) (isSigned : Bool) :
    Keeps P (Core.multiplyIdle multiplier isSigned : MachineM σ Unit) := h.idle.seq (.tick _)

/-! ## Memory -/

theorem wait (h : core.Stable P) (w : Width) (address : UInt32) (access : Access) :
    Keeps P (core.wait w address access) :=
  (Keeps.onBoard fun b => (h.within.waitTime w address access b).2).bind fun _ => .tick _

theorem peek (h : core.Stable P) (w : Width) (address : UInt32) : Keeps P (core.peek w address) :=
  (Keeps.onBoard fun b => (h.within.read w address b).2).bind fun _ => .pure _

theorem load (h : core.Stable P) (w : Width) (address : UInt32) (access : Access) :
    Keeps P (core.load w address access) :=
  (h.wait w address access).seq ((h.peek w address).bind fun _ => .pure _)

theorem store (h : core.Stable P) (w : Width) (address value : UInt32) (access : Access) :
    Keeps P (core.store w address value access) :=
  (h.wait w address access).seq (.onBoard fun b => (h.within.write w address _ b).2)

theorem loadRotated (h : core.Stable P) (address : UInt32) (access : Access) :
    Keeps P (core.loadRotated address access) :=
  (h.load .word address access).bind fun _ => .pure _

theorem loadSignedHalf (h : core.Stable P) (address : UInt32) (access : Access) :
    Keeps P (core.loadSignedHalf address access) :=
  (h.wait .half address access).seq ((h.peek .half address).bind fun _ => .pure _)

theorem loadSignedByte (h : core.Stable P) (address : UInt32) (access : Access) :
    Keeps P (core.loadSignedByte address access) :=
  (h.load .byte address access).bind fun _ => .pure _

theorem skipUnknown (inst : UInt32) : Keeps P (core.skipUnknown inst) :=
  (Keeps.view _).bind fun _ => .note _

end Stable

namespace Steady

/-! ## Jumps -/

/-- Every jump lands. -/
theorem jump (h : core.Steady P) (address : UInt32) : Lands P (core.jump address) := by
  refine ⟨fun m => ?_⟩
  let aimed : Machine σ :=
    { m with
      cpu := m.cpu.setReg Register.pc (Address.alignDown address m.cpu.instructionSize) }
  obtain ⟨hpc, hcpsr, hvalid⟩ := (h.within.mono fun _ _ hboth => hboth.1).refill aimed
  have haimed : aimed.cpu.pc = Address.alignDown address m.cpu.instructionSize := by
    show (m.cpu.setReg Register.pc _).reg Register.pc = _
    rw [reg_setReg, if_pos rfl]
  have hthumb : (core.refill aimed).2.cpu.isFlag .thumb = m.cpu.isFlag .thumb :=
    isFlag_congr hcpsr .thumb
  have haligned : (core.refill aimed).2.cpu.Aligned := by
    unfold Aligned
    rw [hpc, haimed, instructionSize_congr hthumb]
    exact m.cpu.dvd_alignDown_add address
  exact h.landed haligned hvalid

theorem jumpBy (h : core.Steady P) (offset : Int32) : Lands P (core.jumpBy offset) :=
  .after fun _ => h.jump _

theorem exchange (h : core.Steady P) (address : UInt32) : Lands P (core.exchange address) :=
  .after fun _ => h.jump address

theorem setReg (h : core.Steady P) (r : Register) (value : UInt32) :
    Keeps P (core.setReg r value) :=
  .branch (fun _ => (h.jump value).keeps) fun hr => h.putReg hr value

theorem setLoaded_pc (h : core.Steady P) (value : UInt32) :
    Lands P (core.setLoaded Register.pc value) := by
  unfold Core.setLoaded
  rw [if_pos rfl]
  exact .ite (h.exchange value) (h.jump value)

theorem setLoaded (h : core.Steady P) (r : Register) (value : UInt32) :
    Keeps P (core.setLoaded r value) :=
  .branch (fun _ => .ite (h.exchange value).keeps (h.jump value).keeps)
    fun hr => h.putReg hr value

/-! ## Exceptions -/

theorem raise (h : core.Steady P) (e : Exception) : Lands P (core.raise e) := by
  unfold Core.raise
  refine .after fun _ => .after fun _ => .after fun status => .after fun _ => ?_
  exact .after fun _ => .after fun _ => .after fun base => h.jump _

theorem softwareInterrupt (h : core.Steady P) (comment : UInt8) :
    Lands P (core.softwareInterrupt comment) := by
  unfold Core.softwareInterrupt
  refine (h.raise .softwareInterrupt).bind fun _ => ?_
  refine (Keeps.onBoard fun b => (h.within.nativeCall comment b).2).bind fun cycles => ?_
  cases cycles with
  | none => exact .pure _
  | some cycles =>
    have hreturn : Lands P (MachineM.reg Register.lr >>= fun target =>
        MachineM.change (fun s => s.setCpsr s.savedStatus) >>= fun _ => core.jump target) :=
      .after fun target => .after fun _ => h.jump target
    exact (Keeps.tick cycles).seq hreturn.keeps

end Steady
end Core
end Handheld
