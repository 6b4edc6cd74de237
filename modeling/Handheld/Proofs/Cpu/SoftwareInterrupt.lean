import Handheld.Proofs.Cpu.Looking

/-!
# Software interrupts

A software interrupt enters supervisor mode at its vector. There the system may serve it natively,
and the core returns right away; or the code at the vector runs, which may consist of
`movs pc, lr` alone. What either way makes of the board is written down, so that they can be
compared.
-/

namespace Handheld

open Word MachineM CpuState

variable {σ : Type}

namespace CpuState

theorem irqDisable_switched (e : Exception) (s : CpuState) :
    (s.switched e).isFlag .irqDisable = true := by
  have hmasked : (((s.setMode e.mode).setFlag .thumb false).setFlag .irqDisable true).isFlag
      .irqDisable = true := isBit_setBit _ true (by decide) (by decide)
  unfold switched
  split
  · exact (isBit_setBit _ true (by decide) (by decide)).trans hmasked
  · exact hmasked

section
variable (e : Exception) (s : CpuState)

theorem cpsr_raised : (s.raised e).cpsr = (s.realigned.switched e).cpsr := by
  rw [raised_eq]
  rfl

theorem thumb_raised : (s.raised e).isFlag .thumb = false :=
  (isFlag_congr (cpsr_raised e s) .thumb).trans (thumb_switched e _)

theorem irqDisable_raised : (s.raised e).isFlag .irqDisable = true :=
  (isFlag_congr (cpsr_raised e s) .irqDisable).trans (irqDisable_switched e _)

theorem isHalted_raised : (s.raised e).isHalted = s.isHalted := by
  have hrealigned : s.realigned.isHalted = s.isHalted := by
    unfold realigned
    split <;> rfl
  have hswitched : (s.realigned.switched e).isHalted = s.realigned.isHalted := by
    unfold switched
    split <;> rfl
  rw [raised_eq]
  exact hswitched.trans hrealigned

end

/-- A processor that has left the mode of an exception, to the address in its link register. -/
def returned (s : CpuState) : CpuState :=
  (s.setCpsr s.savedStatus).landed (s.reg Register.lr)

end CpuState

namespace Core

variable {core : Core σ} {stored : Store σ}

/-! ## The interrupt as an instruction -/

/-- The next opcode is a software interrupt that is executed, and this is its comment. -/
def NextCall (core : Core σ) (b : Board σ) (comment : UInt8) : Prop :=
  core.callComment? (core.nextOpcode b).1 (core.nextOpcode b).2 = some comment ∧
    ((core.nextOpcode b).1 = true ∨
      b.cpu.holds (Arm.condition (core.nextOpcode b).2) = true)

theorem execute_of_call {thumb : Bool} {inst : UInt32} {comment : UInt8}
    (hcomment : core.callComment? thumb inst = some comment) {m : Machine σ}
    (hholds : thumb = true ∨ m.cpu.holds (Arm.condition inst) = true) :
    core.execute thumb inst m = core.softwareInterrupt comment (core.noted thumb inst m) := by
  unfold callComment? at hcomment
  cases thumb with
  | true =>
    rw [core.execute_short]
    rw [if_pos rfl] at hcomment
    split at hcomment
    case h_1 comment' hdecode =>
      rw [hdecode]
      cases hcomment
      rfl
    case h_2 => cases hcomment
  | false =>
    rw [core.execute_of_holds (hholds.resolve_left Bool.false_ne_true)]
    rw [if_neg Bool.false_ne_true] at hcomment
    split at hcomment
    case h_1 comment' hdecode =>
      rw [hdecode]
      cases hcomment
      rfl
    case h_2 => cases hcomment

/-- The machine on which a step that is a software interrupt enters it. -/
def calling (core : Core σ) (b : Board σ) : Machine σ :=
  core.noted (core.nextOpcode b).1 (core.nextOpcode b).2 (core.fetched b)

/-- The machine that has entered a software interrupt. -/
def entered (core : Core σ) (b : Board σ) : Machine σ :=
  (core.raise .softwareInterrupt (core.calling b)).2

/-! ## Both ways -/

/-- A board at the vector of software interrupts, from which nothing was fetched yet. -/
structure AtVector (core : Core σ) (e : Board σ) : Prop where
  awake : e.cpu.isHalted = false
  stale : e.cpu.pipelineValid = false
  supervisor : e.cpu.mode = .supervisor
  long : e.cpu.isFlag .thumb = false
  masked : e.cpu.isFlag .irqDisable = true
  place : e.cpu.nextInstruction =
    Address.alignDown (core.vectorBase e.system + Exception.softwareInterrupt.vector) 4

/-- An action that leaves the processor where it is leaves it at the vector. -/
theorem AtVector.stays {e e' : Board σ} (h : core.AtVector e) (hfetch : e.cpu.SameFetch e'.cpu)
    (hbase : core.vectorBase e'.system = core.vectorBase e.system)
    (hawake : e'.cpu.isHalted = false) : core.AtVector e' where
  awake := hawake
  stale := hfetch.pipelineValid.trans h.stale
  supervisor := (congrArg Mode.ofStatus hfetch.cpsr).trans h.supervisor
  long := (hfetch.isFlag .thumb).trans h.long
  masked := (hfetch.isFlag .irqDisable).trans h.masked
  place := by
    unfold nextInstruction
    rw [hfetch.pc, instructionSize_congr (hfetch.isFlag .thumb), hbase]
    exact h.place

/-- What follows the entry of a software interrupt. -/
def afterCall (core : Core σ) : Option UInt64 → MachineM σ Unit
  | none => pure ()
  | some cycles => do
    tick cycles
    let target ← reg Register.lr
    change fun s => s.setCpsr s.savedStatus
    core.jump target

theorem softwareInterrupt_eq (comment : UInt8) (m : Machine σ) :
    let raised := (core.raise .softwareInterrupt m).2
    core.softwareInterrupt comment m =
      core.afterCall (core.nativeCall comment raised.toBoard).1
        { raised with toBoard := (core.nativeCall comment raised.toBoard).2 } :=
  rfl

/-- A software interrupt that the system does not serve is entered. -/
theorem softwareInterrupt_of_foreign {comment : UInt8} {m : Machine σ}
    (hforeign : core.nativeCall comment (core.raise .softwareInterrupt m).2.toBoard =
      (none, (core.raise .softwareInterrupt m).2.toBoard)) :
    (core.softwareInterrupt comment m).2.toBoard =
      (core.raise .softwareInterrupt m).2.toBoard := by
  rw [softwareInterrupt_eq, hforeign]
  rfl

namespace Looking

variable (h : core.Looking stored) {b : Board σ}

include h

/-- A fetch wakes the processor and leaves its status alone. -/
theorem cpu_fetched (b : Board σ) :
    ∃ pipeline, (core.fetched b).cpu = b.cpu.afterFetch pipeline := by
  obtain ⟨pipeline, hcpu⟩ := h.quiet.fetchNext { toBoard := core.woken b }
  refine ⟨pipeline, hcpu.trans ?_⟩
  rw [cpu_woken]
  rfl

/-- A software interrupt that is not served natively ends at its vector. -/
theorem step_of_call (hrun : core.canRun b = true) (hcalm : core.takesInterrupt b = false)
    {comment : UInt8} (hcall : core.NextCall b comment) :
    (core.step b).2 = (core.softwareInterrupt comment (core.calling b)).2.toBoard := by
  obtain ⟨hcomment, hholds⟩ := hcall
  obtain ⟨pipeline, hcpu⟩ := h.cpu_fetched b
  -- The condition is tested after the fetch, which leaves the flags as they are.
  have hholds' : (core.nextOpcode b).1 = true ∨
      (core.fetched b).cpu.holds (Arm.condition (core.nextOpcode b).2) = true := by
    rw [hcpu]
    exact hholds
  rw [step_of_running hrun hcalm, execute_of_call hcomment hholds']
  rfl

/-- What entering a software interrupt makes of the board. -/
theorem atVector (b : Board σ) : core.AtVector (core.entered b).toBoard := by
  let m := core.calling b
  obtain ⟨hcpu, hsystem⟩ := h.raise .softwareInterrupt m
  obtain ⟨pipeline, hfetched⟩ := h.cpu_fetched b
  have hawake : m.cpu.isHalted = false := by
    show (core.fetched b).cpu.isHalted = false
    rw [hfetched]
    rfl
  have hlong : (m.cpu.raised .softwareInterrupt).isFlag .thumb = false := thumb_raised _ _
  have hsize : (m.cpu.raised .softwareInterrupt).instructionSize = 4 := by
    unfold instructionSize
    rw [hlong]
    rfl
  constructor
  · show (core.raise .softwareInterrupt m).2.cpu.isHalted = false
    rw [hcpu]
    exact (isHalted_raised _ _).trans hawake
  · show (core.raise .softwareInterrupt m).2.cpu.pipelineValid = false
    rw [hcpu]
    rfl
  · show (core.raise .softwareInterrupt m).2.cpu.mode = _
    rw [hcpu]
    exact mode_raised .softwareInterrupt m.cpu
  · show (core.raise .softwareInterrupt m).2.cpu.isFlag .thumb = false
    rw [hcpu]
    exact hlong
  · show (core.raise .softwareInterrupt m).2.cpu.isFlag .irqDisable = true
    rw [hcpu]
    exact irqDisable_raised _ _
  · show (core.raise .softwareInterrupt m).2.cpu.pc -
      (core.raise .softwareInterrupt m).2.cpu.instructionSize =
        Address.alignDown (core.vectorBase (core.raise .softwareInterrupt m).2.system + _) 4
    rw [hcpu, hsystem, pc_landed, hsize]
    show Address.alignDown _ 4 + 4 - (m.cpu.raised .softwareInterrupt).instructionSize = _
    rw [hsize, UInt32.add_sub_cancel]

/-- A software interrupt that the system serves natively returns from the state that the system
leaves. -/
theorem softwareInterrupt_of_native {comment : UInt8} {m : Machine σ} {cycles : UInt64}
    (hserved : (core.nativeCall comment (core.raise .softwareInterrupt m).2.toBoard).1 =
      some cycles) :
    let served := (core.nativeCall comment (core.raise .softwareInterrupt m).2.toBoard).2
    (core.softwareInterrupt comment m).2.cpu = served.cpu.returned ∧
      (core.softwareInterrupt comment m).2.system = served.system := by
  intro served
  let raised := (core.raise .softwareInterrupt m).2
  let leaving : Machine σ :=
    { cpu := served.cpu.setCpsr served.cpu.savedStatus
      system := served.system
      log := served.log
      cycles := raised.cycles + cycles }
  have hreturn : (core.softwareInterrupt comment m).2 =
      (core.jump (served.cpu.reg Register.lr) leaving).2 := by
    rw [softwareInterrupt_eq, hserved]
    rfl
  rw [hreturn]
  exact h.jump _ leaving

/-- The step of `movs pc, lr` at the vector returns as a native call does. -/
theorem step_of_return {e : Board σ} (he : core.AtVector e)
    (hword : stored e.system .word e.cpu.nextInstruction = 0xE1B0F00E) :
    ∃ pipeline, (core.step e).2.cpu = { e.cpu.returned with pipeline } ∧
      (core.step e).2.system = e.system := by
  have hcalm : core.takesInterrupt e = false := by
    unfold takesInterrupt
    rw [he.masked, Bool.not_true, Bool.and_false]
  have hstale : Prefetched stored e := fun hvalid => by
    rw [he.stale] at hvalid
    cases hvalid
  have hdecode : Arm.decode core.processor.isV5 0xE1B0F00E =
      .alu .mov true 0 Register.pc (.shiftedImmediate Register.lr .lsl 0) := by
    cases core.processor.isV5 <;> decide
  obtain ⟨m, hcpu, hsystem, hstep⟩ :=
    h.step_always he.awake hcalm hstale he.long hword (by decide)
  let pipeline : Vector UInt32 2 :=
    #v[stored e.system .word e.cpu.pc, stored e.system .word (e.cpu.pc + 4)]
  have hcpu' : m.cpu = e.cpu.afterFetch pipeline := hcpu
  -- The move sets flags from the address before the saved status replaces them all.
  let lr := m.cpu.reg Register.lr
  let flagged : CpuState :=
    { m.cpu with cpsr := Arithmetic.withNZC m.cpu.cpsr lr (m.cpu.isFlag .carry) }
  have hmode : flagged.mode = m.cpu.mode := ofStatus_congr (guardedBits_withNZC _ _ _)
  have hsupervisor : m.cpu.mode = .supervisor := by
    rw [hcpu']
    exact he.supervisor
  have hsaved : flagged.savedStatus = m.cpu.savedStatus := by
    unfold savedStatus
    simp only [hmode, hsupervisor]
    rfl
  have hrun : (core.runArm 0xE1B0F00E (Arm.decode core.processor.isV5 0xE1B0F00E) m).2 =
      (core.jump lr { m with cpu :=
        if flagged.mode.hasSavedStatus then flagged.setCpsr flagged.savedStatus
        else flagged }).2 := by
    rw [hdecode]
    rfl
  have hrestored : (if flagged.mode.hasSavedStatus then flagged.setCpsr flagged.savedStatus
      else flagged) = m.cpu.setCpsr m.cpu.savedStatus := by
    have hhas : flagged.mode.hasSavedStatus = true := by
      rw [hmode, hsupervisor]
      rfl
    rw [if_pos hhas, hsaved]
    exact setCpsr_withStatus m.cpu hmode _
  rw [hrestored] at hrun
  obtain ⟨hcpuAfter, hsystemAfter⟩ := h.jump lr { m with cpu := m.cpu.setCpsr m.cpu.savedStatus }
  refine ⟨pipeline, ?_, ?_⟩
  · rw [hstep, hrun, hcpuAfter]
    have hlr : lr = e.cpu.reg Register.lr := by
      show m.cpu.reg Register.lr = _
      rw [hcpu']
      exact (reg_setReg ..).trans (if_neg (by decide))
    have hstatus : m.cpu.savedStatus = e.cpu.savedStatus := by
      rw [hcpu']
      rfl
    show (m.cpu.setCpsr m.cpu.savedStatus).landed lr = _
    rw [hlr, hstatus, hcpu']
    exact setCpsr_afterFetch_landed he.awake pipeline _ _
  · rw [hstep, hrun, hsystemAfter]
    exact hsystem

end Looking
end Core
end Handheld
