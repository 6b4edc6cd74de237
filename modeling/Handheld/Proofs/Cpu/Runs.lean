import Mathlib
import Handheld.Proofs.Cpu.Cost
import Handheld.Proofs.Cpu.InstructionCourse

/-!
# Steps and runs

A step lets a sleeping processor sleep, enters an interrupt, or fetches an opcode and executes it.
A run is any number of steps from an address on, between which the system may change.
-/

namespace Handheld.Core

open MachineM CpuState

variable {σ : Type} (core : Core σ)

/-! ## Fetching in parts -/

theorem revalidate_of_valid {m : Machine σ} (h : m.cpu.pipelineValid = true) :
    core.revalidate m = ((), m) := by
  have hrevalidate : core.revalidate m =
      (if !m.cpu.pipelineValid then do
        let pc ← view (·.pc)
        let w ← view instructionWidth
        let first ← core.peek w (pc - w.bytes)
        let second ← core.peek w pc
        change ({ · with pipeline := #v[first, second], pipelineValid := true })
      else pure () : MachineM σ Unit) m := rfl
  rw [hrevalidate, h]
  rfl

/-- The two opcodes are read from the addresses around the next instruction. -/
theorem revalidate_of_stale {m : Machine σ} (h : m.cpu.pipelineValid = false) :
    let w := instructionWidth m.cpu
    let first := core.peek w (m.cpu.pc - w.bytes) m
    let second := core.peek w m.cpu.pc first.2
    core.revalidate m = ((), { second.2 with
      cpu := { second.2.cpu with pipeline := #v[first.1, second.1], pipelineValid := true } }) := by
  have hrevalidate : core.revalidate m =
      (if !m.cpu.pipelineValid then do
        let pc ← view (·.pc)
        let w ← view instructionWidth
        let first ← core.peek w (pc - w.bytes)
        let second ← core.peek w pc
        change ({ · with pipeline := #v[first, second], pipelineValid := true })
      else pure () : MachineM σ Unit) m := rfl
  rw [hrevalidate, h]
  rfl

theorem fetchNext_eq (m : Machine σ) :
    let ready := (core.revalidate m).2
    let inst := core.fetch (instructionWidth ready.cpu) ready
    core.fetchNext m = ((ready.cpu.isFlag .thumb, inst.1), inst.2) := rfl

/-! ## Steps by kind -/

/-- The machine on which a step enters an interrupt. -/
def interrupted (b : Board σ) : Machine σ where
  cpu := (core.woken b).cpu.bumpPc 4
  system := (core.woken b).system
  log := (core.woken b).log.add (.takingIrq core.processor)

/-- The machine on which a step executes the next opcode. -/
def fetched (b : Board σ) : Machine σ := (core.fetchNext { toBoard := core.woken b }).2

variable {core : Core σ} {b : Board σ}

/-- Waking up changes nothing that tells what to execute. -/
theorem woken_cpu (core : Core σ) (b : Board σ) :
    (core.woken b).cpu = { b.cpu with isHalted := (core.woken b).cpu.isHalted } := by
  unfold woken
  split <;> rfl

theorem woken_system (core : Core σ) (b : Board σ) : (core.woken b).system = b.system := by
  unfold woken
  split <;> rfl

theorem takesInterrupt_woken : core.takesInterrupt (core.woken b) = core.takesInterrupt b := by
  unfold takesInterrupt
  rw [woken_system, woken_cpu]
  rfl

theorem step_of_taken (hrun : core.canRun b = true) (htaken : core.takesInterrupt b = true) :
    (core.step b).2 = (core.raise .interruptRequest (core.interrupted b)).2.toBoard := by
  have htaken' : core.takesInterrupt (core.woken b) = true := takesInterrupt_woken.trans htaken
  have hstep : (core.step b).2 = (core.stepBody { toBoard := b }).2.toBoard := rfl
  rw [hstep, stepBody_of_awake hrun]
  show ((if !(core.takeInterrupt { toBoard := core.woken b }).1 then core.executeNext
    else pure () : MachineM σ Unit) (core.takeInterrupt { toBoard := core.woken b }).2).2.toBoard = _
  rw [Timed.takeInterrupt_of_taken htaken']
  rfl

theorem step_of_running (hrun : core.canRun b = true) (hcalm : core.takesInterrupt b = false) :
    (core.step b).2 =
      (core.execute (core.nextOpcode b).1 (core.nextOpcode b).2 (core.fetched b)).2.toBoard := by
  have hcalm' : core.takesInterrupt (core.woken b) = false := takesInterrupt_woken.trans hcalm
  have hstep : (core.step b).2 = (core.stepBody { toBoard := b }).2.toBoard := rfl
  rw [hstep, stepBody_of_awake hrun]
  show ((if !(core.takeInterrupt { toBoard := core.woken b }).1 then core.executeNext
    else pure () : MachineM σ Unit) (core.takeInterrupt { toBoard := core.woken b }).2).2.toBoard = _
  rw [core.takeInterrupt_of_calm hcalm', executeNext_eq]
  rfl

/-! ## Runs -/

/-- The boards that a core reaches from an address on. Between two steps the system and the log
may change, but not the processor. -/
inductive Reached (core : Core σ) : Board σ → Prop
  | start (b : Board σ) (address : UInt32) : Reached core { b with cpu := b.cpu.startAt address }
  | step {b : Board σ} (run : Reached core b) : Reached core (core.step b).2
  | outside {b : Board σ} (run : Reached core b) (system : σ) (log : Log) :
    Reached core { b with system, log }

end Handheld.Core
