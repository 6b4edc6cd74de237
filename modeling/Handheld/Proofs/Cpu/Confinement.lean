import Handheld.FlatMemory
import Handheld.Proofs.Cpu.InstructionSimulation
import Handheld.Proofs.Cpu.RegisterFile
import Handheld.Proofs.Cpu.Status

/-!
# User mode is confined

What a program in user mode cannot change: the mode, the two interrupt masks, the saved status
registers, and every register of the file that user mode does not see. `Move.confined` shows it
for each change that an instruction can make. A core in lockstep with itself then makes nothing
but such changes in a step that neither takes an interrupt nor executes a software interrupt.
-/

namespace Handheld

/-! ## Confinement of the processor's state -/

namespace CpuState

/-- The second state differs from the first, which is in user mode, only in what user mode may
change. -/
structure Confined (s t : CpuState) : Prop where
  status : guardedBits t.cpsr = guardedBits s.cpsr
  hidden : ∀ p : PhysicalRegister, (∀ r, Register.physical .user r ≠ p) →
    t.physicalValue p = s.physicalValue p
  saved : t.spsr = s.spsr

theorem Confined.refl (s : CpuState) : s.Confined s := ⟨rfl, fun _ _ => rfl, rfl⟩

theorem Confined.trans {s t u : CpuState} (h : s.Confined t) (h' : t.Confined u) :
    s.Confined u where
  status := h'.status.trans h.status
  hidden p hp := (h'.hidden p hp).trans (h.hidden p hp)
  saved := h'.saved.trans h.saved

/-- The mode is one of the things that the guarded bits of the status decide. -/
theorem ofStatus_congr {v w : UInt32} (h : guardedBits v = guardedBits w) :
    Mode.ofStatus v = Mode.ofStatus w := by
  -- The mode is in the lowest five bits, all of which are guarded.
  have hlow : ∀ x : UInt32, x &&& 0x1F = guardedBits x &&& 0x1F := by
    intro x
    rw [guardedBits, UInt32.and_assoc]
    rfl
  apply Mode.ofStatus_eq_of_and
  rw [hlow v, hlow w, h]

theorem Confined.mode {s t : CpuState} (h : s.Confined t) : t.mode = s.mode :=
  ofStatus_congr h.status

/-- A change of flags leaves the register file as it is. -/
theorem physicalValue_withStatus (s : CpuState) {status : UInt32}
    (h : Mode.ofStatus status = s.mode) :
    CpuState.physicalValue { s with cpsr := status } = s.physicalValue := by
  funext p
  have hmode : CpuState.mode { s with cpsr := status } = s.mode := h
  cases p with
  | low | pc => rfl
  | high | sp | lr =>
    unfold physicalValue
    rw [hmode]
    rfl

/-- No change that an instruction makes in user mode leaves the bounds of user mode. -/
theorem Move.confined {s t : CpuState} (h : s.Move t) (huser : s.mode = .user) :
    s.Confined t := by
  cases h with
  | reg r value =>
    refine ⟨rfl, ?_, rfl⟩
    intro p hp
    rw [physicalValue_setReg, huser, Function.update_of_ne (hp r).symm]
  | userReg r value =>
    obtain ⟨hcpsr, hspsr⟩ := status_setRegInMode s .user r value
    refine ⟨by rw [hcpsr], ?_, hspsr⟩
    intro p hp
    rw [physicalValue_setRegInMode, Function.update_of_ne (hp r).symm]
  | flags status hflags =>
    refine ⟨hflags, ?_, rfl⟩
    intro p _
    rw [physicalValue_withStatus s (ofStatus_congr hflags)]
  | status value hvalue =>
    refine ⟨hvalue huser, ?_, rfl⟩
    intro p _
    rw [physicalValue_setCpsr]
  | saved value =>
    have hnone : s.setSavedStatus value = s := by
      unfold setSavedStatus
      rw [if_neg]
      rw [huser]
      decide
    rw [hnone]
    exact .refl s
  | prefetch => exact ⟨rfl, fun _ _ => rfl, rfl⟩

end CpuState

/-! ## Confinement of a step -/

namespace Core

open MachineM

variable {σ : Type} (core : Core σ)

/-- The callbacks that instructions use leave the processor's state alone. -/
structure SparesCpu : Prop where
  read : ∀ w address b, (core.read w address b).2.cpu = b.cpu
  write : ∀ w address value b, (core.write w address value b).2.cpu = b.cpu
  waitTime : ∀ w address access b, (core.waitTime w address access b).2.cpu = b.cpu
  controlRead : ∀ cn cm cp b, (core.controlRead cn cm cp b).2.cpu = b.cpu
  controlWrite : ∀ cn cm cp value b, (core.controlWrite cn cm cp value b).2.cpu = b.cpu

/-- Whether a step on the board takes an interrupt. -/
def takesInterrupt (b : Board σ) : Bool :=
  (core.interrupts b.system).shouldInterrupt && !b.cpu.isFlag .irqDisable

/-- The board of a processor that has just woken up, if it was halted. -/
def woken (b : Board σ) : Board σ :=
  if b.cpu.isHalted then
    { b with
      cpu := { b.cpu with isHalted := false }
      log := b.log.add (.wokeUp core.processor) }
  else b

/-- The opcode that a step on the board executes, unless the processor stays halted, and whether
it is a short one. -/
def nextOpcode (b : Board σ) : Bool × UInt32 := (core.fetchNext { toBoard := core.woken b }).1

theorem takeInterrupt_of_calm {m : Machine σ} (hcalm : core.takesInterrupt m.toBoard = false) :
    core.takeInterrupt m = (false, m) := by
  have htake : core.takeInterrupt m =
      (if core.takesInterrupt m.toBoard then do
        note (.takingIrq core.processor)
        change (·.bumpPc 4)
        core.raise .interruptRequest
        return true
      else return false : MachineM σ Bool) m := rfl
  rw [htake, hcalm]
  rfl

/-- A step that takes no interrupt does nothing or executes the next opcode. -/
theorem step_of_calm {b : Board σ} (hcalm : core.takesInterrupt b = false) :
    (core.step b).2 = b ∨
      (core.step b).2 = (core.executeNext { toBoard := core.woken b }).2.toBoard := by
  have hnext : ∀ m : Machine σ, core.takesInterrupt m.toBoard = false →
      ((core.takeInterrupt >>= fun taken => if !taken then core.executeNext else pure ()) m).2 =
        (core.executeNext m).2 := by
    intro m hm
    show ((if !(core.takeInterrupt m).1 then core.executeNext else pure () : MachineM σ Unit)
      (core.takeInterrupt m).2).2 = _
    rw [core.takeInterrupt_of_calm hm]
    rfl
  have hstep : (core.step b).2 = (core.stepBody { toBoard := b }).2.toBoard := rfl
  -- Of a step only two things depend on the board: whether the processor is halted, and whether it
  -- wakes up.
  have hbody : core.stepBody { toBoard := b } =
      (if b.cpu.isHalted then
        if !(core.interrupts b.system).isPending then pure ()
        else do
          note (.wokeUp core.processor)
          change ({ · with isHalted := false })
          let taken ← core.takeInterrupt
          if !taken then core.executeNext
      else do
        let taken ← core.takeInterrupt
        if !taken then core.executeNext : MachineM σ Unit) { toBoard := b } := by
    unfold stepBody
    show (if b.cpu.isHalted then _ else _ : MachineM σ Unit) { toBoard := b } = _
    by_cases hhalted : b.cpu.isHalted = true
    · rw [if_pos hhalted, if_pos hhalted]
      rfl
    · rw [if_neg hhalted, if_neg hhalted]
  rw [hstep, hbody]
  by_cases hhalted : b.cpu.isHalted = true
  · rw [if_pos hhalted]
    by_cases hpending : (core.interrupts b.system).isPending = true
    · right
      rw [if_neg (by simp [hpending])]
      have hwoken : core.woken b = { b with
          cpu := { b.cpu with isHalted := false }
          log := b.log.add (.wokeUp core.processor) } := if_pos hhalted
      rw [hwoken]
      exact congrArg Machine.toBoard (hnext _ hcalm)
    · left
      rw [if_pos (by simp [hpending])]
      rfl
  · right
    rw [if_neg hhalted]
    have hwoken : core.woken b = b := if_neg hhalted
    rw [hwoken]
    exact congrArg Machine.toBoard (hnext _ hcalm)

/-- A core whose callbacks spare the processor, in lockstep with itself, on boards whose processor
has not left the bounds of user mode since it was in the state `s`. -/
theorem SparesCpu.simulation {core : Core σ} (h : core.SparesCpu) {s : CpuState}
    (huser : s.mode = .user) :
    Simulation core core (fun b e => b = e ∧ s.Confined b.cpu) := by
  have hagree : ∀ {α : Type} {f : BoardM σ α}, (∀ b, (f b).2.cpu = b.cpu) →
      Agree (fun b e => b = e ∧ s.Confined b.cpu) f f := by
    intro α f hf b e hbe
    obtain ⟨rfl, hconfined⟩ := hbe
    refine ⟨rfl, rfl, ?_⟩
    rw [hf]
    exact hconfined
  refine {
    processor := rfl
    cpu := fun hbe => by rw [hbe.1]
    move := ?_
    report := fun entry => hagree fun _ => rfl
    interrupts := fun hbe => by rw [hbe.1]
    read := fun w address => hagree (h.read w address)
    write := fun w address value => hagree (h.write w address value)
    waitTime := fun w address access => hagree (h.waitTime w address access)
    controlRead := fun cn cm cp => hagree (h.controlRead cn cm cp)
    controlWrite := fun cn cm cp value => hagree (h.controlWrite cn cm cp value) }
  intro b e t hbe hmove
  obtain ⟨rfl, hconfined⟩ := hbe
  exact ⟨rfl, hconfined.trans (hmove.confined (hconfined.mode.trans huser))⟩

/-- What a step in user mode may change, exceptions apart. -/
theorem SparesCpu.step_confined {core : Core σ} (h : core.SparesCpu) {b : Board σ}
    (huser : b.cpu.mode = .user) (hcalm : core.takesInterrupt b = false)
    (hcall : core.callComment? (core.nextOpcode b).1 (core.nextOpcode b).2 = none) :
    b.cpu.Confined (core.step b).2.cpu := by
  have sim := h.simulation huser
  have hwoken : b.cpu.Confined (core.woken b).cpu := by
    unfold woken
    split
    · exact (CpuState.Move.prefetch b.cpu.pipeline b.cpu.pipelineValid b.cpu.accessType
        false).confined huser
    · exact .refl _
  rcases core.step_of_calm hcalm with hstep | hstep
  · rw [hstep]
    exact .refl _
  · rw [hstep, executeNext_eq]
    let m : Machine σ := { toBoard := core.woken b }
    obtain ⟨-, hfetched⟩ := sim.fetchNext m m ⟨⟨rfl, hwoken⟩, rfl⟩
    -- The opcode that was fetched is the one that is not a software interrupt.
    have hexecute := sim.execute (core.nextOpcode b).1 (core.nextOpcode b).2 fun comment hsome => by
      rw [hcall] at hsome
      cases hsome
    obtain ⟨-, hdone⟩ := hexecute _ _ hfetched
    exact hdone.board.2

/-- **User mode is confined.** A step of a processor in user mode that takes no interrupt and
executes no software interrupt keeps the mode bits and both interrupt masks, the fast interrupt
mode's own registers, the stack pointers and link registers of all privileged banks, and every
saved status. -/
theorem user_mode_confined (core : Core σ) (hcore : core.SparesCpu) (b : Board σ)
    (huser : b.cpu.mode = .user) (hcalm : core.takesInterrupt b = false)
    (hcall : core.callComment? (core.nextOpcode b).1 (core.nextOpcode b).2 = none) :
    let t := (core.step b).2.cpu
    t.cpsr &&& 0xDF = b.cpu.cpsr &&& 0xDF ∧
    (∀ r : Register, 8 ≤ r.val ∧ r.val ≤ 12 → t.regInMode .fiq r = b.cpu.regInMode .fiq r) ∧
    (∀ (m : Mode) (r : Register), m.bank ≠ Mode.user.bank → r = Register.sp ∨ r = Register.lr →
      t.regInMode m r = b.cpu.regInMode m r) ∧
    t.spsr = b.cpu.spsr := by
  intro t
  have hconfined : b.cpu.Confined t := hcore.step_confined huser hcalm hcall
  have hview : ∀ (m : Mode) (r : Register), (∀ r', Register.physical .user r' ≠ r.physical m) →
      t.regInMode m r = b.cpu.regInMode m r := by
    intro m r hhidden
    rw [CpuState.regInMode_eq_view, CpuState.regInMode_eq_view]
    exact hconfined.hidden _ hhidden
  refine ⟨hconfined.status, ?_, ?_, hconfined.saved⟩
  · intro r hr
    apply hview .fiq r
    intro r' heq
    obtain ⟨rfl, hfiq, -⟩ := (Register.physical_eq_iff _ _ _ _).mp heq
    have hmode := (hfiq hr).mpr rfl
    cases hmode
  · intro m r hbank hr
    apply hview m r
    intro r' heq
    obtain ⟨rfl, -, hshared⟩ := (Register.physical_eq_iff _ _ _ _).mp heq
    exact hbank (hshared hr).symm

/-! ## Runs in user mode -/

/-- Steps of which none takes an interrupt or executes a software interrupt. -/
inductive QuietRun (core : Core σ) : Board σ → Board σ → Prop
  | refl (b : Board σ) : QuietRun core b b
  | step {b e : Board σ} (run : QuietRun core b e) (calm : core.takesInterrupt e = false)
      (noCall : core.callComment? (core.nextOpcode e).1 (core.nextOpcode e).2 = none) :
      QuietRun core b (core.step e).2

/-- A program in user mode stays there, however long it runs, until an exception is entered. -/
theorem QuietRun.confined {core : Core σ} (hcore : core.SparesCpu) {b e : Board σ}
    (run : QuietRun core b e) (huser : b.cpu.mode = .user) : b.cpu.Confined e.cpu := by
  induction run with
  | refl => exact .refl _
  | step _ calm noCall ih =>
    exact ih.trans (hcore.step_confined (ih.mode.trans huser) calm noCall)

end Core

namespace FlatMemory

theorem minimalCore_sparesCpu (p : Processor) : (minimalCore p).SparesCpu :=
  ⟨fun _ _ _ => rfl, fun _ _ _ _ => rfl, fun _ _ _ _ => rfl, fun _ _ _ _ => rfl,
    fun _ _ _ _ _ => rfl⟩

/-- A processor in user mode that is about to write `0xDF` to all of its status register. -/
def beforeWriteStatus : Board FlatMemory where
  cpu :=
    { cpsr := 0x10
      registers := resetRegisters.set 0 0xDF
      pipeline := #v[0xE129F000, 0]
      pipelineValid := true }
  system := {}
  log := {}

theorem user_mode_confined_writeStatus :
    let t := ((minimalCore .arm9).step beforeWriteStatus).2.cpu
    t.cpsr &&& 0xDF = beforeWriteStatus.cpu.cpsr &&& 0xDF ∧
      t.spsr = beforeWriteStatus.cpu.spsr := by
  obtain ⟨hstatus, -, -, hsaved⟩ := Core.user_mode_confined (minimalCore .arm9)
    (minimalCore_sparesCpu .arm9) beforeWriteStatus (by decide) (by decide) (by rfl)
  exact ⟨hstatus, hsaved⟩

end FlatMemory
end Handheld
