import Handheld.Arm.Execute
import Handheld.Thumb.Execute

/-!
# One step of a processor

A step takes a raised interrupt or executes one instruction. A halted processor does nothing,
and takes no time, until an interrupt that is let through is raised.
-/

namespace Handheld.Core

open MachineM

variable {σ : Type} (core : Core σ)

/-- Fetch an instruction and execute it. -/
def executeNext : MachineM σ Unit := do
  core.revalidate
  let thumb ← view (·.isFlag .thumb)
  let inst ← core.fetch (if thumb then .half else .word)
  let s ← view id
  note (.executing core.processor thumb s.executing inst s.cpsr)
  if thumb then core.executeThumb inst.toUInt16 else core.executeArm inst

/-- Wake up, if halted, and go on. -/
def stepBody : MachineM σ Unit := do
  if ← view (·.isHalted) then
    if !(← ask fun system => (core.interrupts system).isPending) then return
    note (.wokeUp core.processor)
    change ({ · with isHalted := false })
  if !(← core.takeInterrupt) then core.executeNext

/-- Run one step on a board. Returns the cycles it took. -/
def step (board : Board σ) : UInt64 × Board σ :=
  let (_, machine) := core.stepBody { toBoard := board }
  (machine.cycles, machine.toBoard)

end Handheld.Core
