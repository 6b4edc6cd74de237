import Handheld.Proofs.Cpu.InterruptReturn
import Handheld.Proofs.Cpu.Prefetch

/-!
# Cores whose bus is only looked at

On many systems a read and a wait change nothing but the log. What a core does between its own
writes is then known exactly: a jump, an exception entry and a fetch leave the system as it is, and
a step runs the stored opcode on a machine whose state can be written down. So a fixed piece of
code is executed word by word.
-/

namespace Handheld

open Word MachineM CpuState

variable {σ : Type}

namespace CpuState

/-- A processor that has fetched its next opcode. -/
def afterFetch (s : CpuState) (pipeline : Vector UInt32 2) : CpuState :=
  { s.bumpPc s.instructionSize with
    pipeline, pipelineValid := true, accessType := Access.sequential, isHalted := false }

/-- A processor that has jumped to an address. -/
def landed (s : CpuState) (address : UInt32) : CpuState :=
  { s.startAt address with accessType := Access.sequential }

section
variable (s : CpuState) (pipeline : Vector UInt32 2) (address : UInt32)

theorem pc_afterFetch : (s.afterFetch pipeline).pc = s.pc + s.instructionSize := by
  show (s.setReg Register.pc _).reg Register.pc = _
  rw [reg_setReg, if_pos rfl]

theorem pc_landed :
    (s.landed address).pc = Address.alignDown address s.instructionSize + s.instructionSize := by
  show (s.setReg Register.pc _).reg Register.pc = _
  rw [reg_setReg, if_pos rfl]

theorem physicalValue_afterFetch {r : PhysicalRegister} (hr : r ≠ .pc) :
    (s.afterFetch pipeline).physicalValue r = s.physicalValue r := by
  show (s.setReg Register.pc _).physicalValue r = _
  rw [physicalValue_setReg, Register.physical_pc, Function.update_of_ne hr]

theorem physicalValue_landed {r : PhysicalRegister} (hr : r ≠ .pc) :
    (s.landed address).physicalValue r = s.physicalValue r :=
  Core.physicalValue_startAt s address hr

end

/-! ## The program counter and the banks -/

theorem storeBanks_setReg_pc (s : CpuState) (address : UInt32) :
    (s.setReg Register.pc address).storeBanks = s.storeBanks.setReg Register.pc address := by
  have hreg : ∀ i : Fin 5, (s.registers.set 15 address)[i.val + 8] = s.registers[i.val + 8] :=
    fun i => Vector.getElem_set_ne _ _ (by omega)
  simp [storeBanks, setReg, reg, mode, Register.pc, Register.sp, Register.lr, hreg]
  rfl

theorem loadBanks_setReg_pc (s : CpuState) (address : UInt32) :
    (s.setReg Register.pc address).loadBanks = s.loadBanks.setReg Register.pc address := by
  simp only [loadBanks, setReg, mode, Register.pc]
  congr 1
  refine Vector.ext fun i hi => ?_
  by_cases hpc : 15 = i
  · subst hpc
    simp
  · simp [Vector.getElem_set, hpc]
    rfl

/-- The program counter is no part of a bank. -/
theorem setCpsr_setReg_pc (s : CpuState) (address value : UInt32) :
    (s.setReg Register.pc address).setCpsr value =
      (s.setCpsr value).setReg Register.pc address := by
  have hstore := storeBanks_setReg_pc s address
  unfold setCpsr
  rw [hstore]
  exact loadBanks_setReg_pc { s.storeBanks with cpsr := value } address

/-- Which status is replaced does not show, as long as its mode is the same. -/
theorem setCpsr_withStatus (s : CpuState) {status : UInt32} (h : Mode.ofStatus status = s.mode)
    (value : UInt32) : ({ s with cpsr := status } : CpuState).setCpsr value = s.setCpsr value := by
  have hmode : ({ s with cpsr := status } : CpuState).mode = s.mode := h
  have hstore : ({ s with cpsr := status } : CpuState).storeBanks =
      { s.storeBanks with cpsr := status } := by
    simp only [storeBanks, hmode]
    rfl
  unfold setCpsr
  rw [hstore]

theorem setReg_setReg (s : CpuState) (r : Register) (first second : UInt32) :
    (s.setReg r first).setReg r second = s.setReg r second := by
  simp only [setReg, Vector.set_set]

/-- A processor that restores a status and jumps ends in the same place, whether it has fetched
an opcode before or not. Only what is left of the prefetched opcodes tells. -/
theorem setCpsr_afterFetch_landed {s : CpuState} (hawake : s.isHalted = false)
    (pipeline : Vector UInt32 2) (value address : UInt32) :
    ((s.afterFetch pipeline).setCpsr value).landed address =
      { (s.setCpsr value).landed address with pipeline } := by
  have hfetch : (s.afterFetch pipeline).setCpsr value =
      { (s.setCpsr value).setReg Register.pc (s.pc + s.instructionSize) with
        pipeline, pipelineValid := true, accessType := Access.sequential } := by
    have hbase : (s.afterFetch pipeline).setCpsr value =
        { (s.setReg Register.pc (s.pc + s.instructionSize)).setCpsr value with
          pipeline, pipelineValid := true, accessType := Access.sequential
          isHalted := false } := rfl
    rw [hbase, setCpsr_setReg_pc, ← hawake]
    rfl
  -- The jump then overwrites the one register in which the two differ.
  have htarget := setReg_setReg (s.setCpsr value) Register.pc (s.pc + s.instructionSize)
    (Address.alignDown address (s.setCpsr value).instructionSize +
      (s.setCpsr value).instructionSize)
  rw [hfetch]
  show { ((s.setCpsr value).setReg Register.pc _).setReg Register.pc
    (Address.alignDown address (s.setCpsr value).instructionSize +
      (s.setCpsr value).instructionSize) with
    pipeline, pipelineValid := false, accessType := Access.sequential } = _
  rw [htarget]
  rfl

end CpuState

namespace Core

variable {core : Core σ} {stored : Store σ}

/-- A core whose bus reads what is stored, and for which reading, waiting and the announcement of an
exception change neither the processor nor the system. -/
structure Looking (core : Core σ) (stored : Store σ) : Prop where
  quiet : core.QuietEntry
  backed : core.Backed stored
  read : ∀ w address b, (core.read w address b).2.system = b.system
  waitTime : ∀ w address access b, (core.waitTime w address access b).2.system = b.system
  onException : ∀ e b, (core.onException e b).2.system = b.system

/-- The board on which a step executes its opcode has a processor that may run. -/
theorem cpu_woken (core : Core σ) (b : Board σ) :
    (core.woken b).cpu = { b.cpu with isHalted := false } := by
  unfold woken
  cases hhalted : b.cpu.isHalted with
  | true => rfl
  | false =>
    rw [if_neg Bool.false_ne_true, ← hhalted]

namespace Looking

variable (h : core.Looking stored)

include h

/-! ## Parts of a step -/

theorem system_wait (w : Width) (address : UInt32) (access : Access) (m : Machine σ) :
    (core.wait w address access m).2.system = m.system := h.waitTime w address access m.toBoard

theorem system_peek (w : Width) (address : UInt32) (m : Machine σ) :
    (core.peek w address m).2.system = m.system := h.read w address m.toBoard

theorem peek_value (w : Width) (address : UInt32) (m : Machine σ) :
    (core.peek w address m).1 = stored m.system w address := (h.backed.peek w address m).1

theorem jump (address : UInt32) (m : Machine σ) :
    (core.jump address m).2.cpu = m.cpu.landed address ∧
      (core.jump address m).2.system = m.system := by
  refine ⟨h.quiet.jump address m, ?_⟩
  let target := Address.alignDown address m.cpu.instructionSize
  let aimed : Machine σ := { m with cpu := m.cpu.setReg Register.pc target }
  have hjump : (core.jump address m).2 = (core.refill aimed).2 := rfl
  rw [hjump, core.refill_eq]
  exact (h.system_wait ..).trans (h.system_wait ..)

/-- Entering an exception jumps to its vector from the state that it has raised. -/
theorem raise (e : Exception) (m : Machine σ) :
    (core.raise e m).2.cpu =
        (m.cpu.raised e).landed (core.vectorBase m.system + e.vector) ∧
      (core.raise e m).2.system = m.system := by
  let told := (onBoard (core.onException e) m).2
  let entering : Machine σ := { told with cpu := told.cpu.raised e }
  have htold : told.cpu = m.cpu := h.quiet.onException e m.toBoard
  have hsystem : told.system = m.system := h.onException e m.toBoard
  -- The status that is saved is read off the realigned processor, where it is still the same.
  have hraise : (core.raise e m).2 =
      (core.jump (core.vectorBase told.system + e.vector) entering).2 := by
    have hraised : told.cpu.raised e =
        ((told.cpu.realigned.switched e).setReg Register.lr
          ((told.cpu.realigned.switched e).pc -
            (told.cpu.realigned.switched e).instructionSize)).setSavedStatus
          told.cpu.realigned.cpsr := by
      rw [cpsr_realigned]
      rfl
    show _ = (core.jump _ { told with cpu := told.cpu.raised e }).2
    rw [hraised]
    rfl
  obtain ⟨hcpu, hkept⟩ := h.jump (core.vectorBase told.system + e.vector) entering
  rw [hraise]
  refine ⟨hcpu.trans ?_, hkept.trans hsystem⟩
  show (told.cpu.raised e).landed _ = _
  rw [htold, hsystem]

theorem revalidate (m : Machine σ) : (core.revalidate m).2.system = m.system := by
  cases hvalid : m.cpu.pipelineValid with
  | true => rw [core.revalidate_of_valid hvalid]
  | false =>
    rw [core.revalidate_of_stale hvalid]
    exact (h.system_peek ..).trans (h.system_peek ..)

theorem fetchNext (m : Machine σ) : (core.fetchNext m).2.system = m.system := by
  let ready := (core.revalidate m).2
  let w := instructionWidth ready.cpu
  let moved : Machine σ := { ready with cpu := ready.cpu.bumpPc w.bytes }
  let waited := (core.wait w moved.cpu.pc (moved.cpu.accessType ||| Access.code) moved).2
  calc (core.fetchNext m).2.system = (core.peek w moved.cpu.pc waited).2.system := rfl
    _ = waited.system := h.system_peek ..
    _ = moved.system := h.system_wait ..
    _ = m.system := h.revalidate m

/-- The machine on which a step executes its opcode. -/
theorem fetched {b : Board σ} (hb : Prefetched stored b) :
    (core.fetched b).cpu = b.cpu.afterFetch
        #v[stored b.system (instructionWidth b.cpu) b.cpu.pc,
          stored b.system (instructionWidth b.cpu) (b.cpu.pc + b.cpu.instructionSize)] ∧
      (core.fetched b).system = b.system := by
  obtain ⟨-, -, -, hpipeline⟩ := h.backed.fetched hb
  obtain ⟨pipeline, hcpu⟩ := h.quiet.fetchNext { toBoard := core.woken b }
  have hfetched : (core.fetched b).cpu = b.cpu.afterFetch pipeline := by
    refine hcpu.trans ?_
    rw [cpu_woken]
    rfl
  refine ⟨?_, (h.fetchNext _).trans (woken_system core b)⟩
  rw [hfetched] at hpipeline ⊢
  rw [← hpipeline]
  rfl

/-! ## Steps -/

/-- A step runs the stored opcode on a machine that has just fetched it. -/
theorem step {b : Board σ} (hrun : core.canRun b = true) (hcalm : core.takesInterrupt b = false)
    (hb : Prefetched stored b) {thumb : Bool} (hthumb : b.cpu.isFlag .thumb = thumb) :
    ∃ m : Machine σ, m.cpu = b.cpu.afterFetch
        #v[stored b.system (instructionWidth b.cpu) b.cpu.pc,
          stored b.system (instructionWidth b.cpu) (b.cpu.pc + b.cpu.instructionSize)] ∧
      m.system = b.system ∧
      (core.step b).2 = (core.execute thumb
        (stored b.system (instructionWidth b.cpu) b.cpu.nextInstruction) m).2.toBoard := by
  obtain ⟨hopcode, -, -, -⟩ := h.backed.fetched hb
  obtain ⟨hcpu, hsystem⟩ := h.fetched hb
  refine ⟨core.fetched b, hcpu, hsystem, ?_⟩
  rw [step_of_running hrun hcalm, hopcode, hthumb]

end Looking

/-- A word that is always executed is executed as what it encodes. -/
theorem execute_of_always {word : UInt32} (halways : Arm.condition word = 14) (m : Machine σ) :
    ∃ log, core.execute false word m =
      core.runArm word (Arm.decode core.processor.isV5 word) { m with log } := by
  have hholds : m.cpu.holds (Arm.condition word) = true := by
    rw [halways]
    exact m.cpu.holds_always
  exact ⟨(core.noted false word m).log, core.execute_of_holds hholds⟩

/-- The step of a long instruction that is always executed. -/
theorem Looking.step_always (h : core.Looking stored) {b : Board σ}
    (hawake : b.cpu.isHalted = false) (hcalm : core.takesInterrupt b = false)
    (hb : Prefetched stored b) (harm : b.cpu.isFlag .thumb = false) {word : UInt32}
    (hword : stored b.system .word b.cpu.nextInstruction = word)
    (halways : Arm.condition word = 14) :
    ∃ m : Machine σ, m.cpu = b.cpu.afterFetch
        #v[stored b.system .word b.cpu.pc, stored b.system .word (b.cpu.pc + 4)] ∧
      m.system = b.system ∧
      (core.step b).2 =
        (core.runArm word (Arm.decode core.processor.isV5 word) m).2.toBoard := by
  have hrun : core.canRun b = true := by
    unfold canRun
    rw [hawake]
    rfl
  have hwidth : instructionWidth b.cpu = .word := by
    unfold instructionWidth
    rw [harm]
    rfl
  have hsize : b.cpu.instructionSize = 4 := by
    unfold instructionSize
    rw [harm]
    rfl
  obtain ⟨m, hcpu, hsystem, hstep⟩ := h.step hrun hcalm hb harm
  rw [hwidth, hsize] at hcpu
  rw [hwidth, hword] at hstep
  obtain ⟨log, hexecute⟩ := core.execute_of_always halways m
  refine ⟨{ m with log }, hcpu, hsystem, ?_⟩
  rw [hstep, hexecute]

end Core
end Handheld
