import Handheld.Proofs.Checked.Execution
import Handheld.Proofs.Cpu.BlockInstructions
import Handheld.Proofs.Cpu.Runs

/-!
# Steps with checked ranges

A core that stops at the first operation whose result leaves its range steps as the one that wraps
around, with one exception: on ARMv4 the program counter is stored in place of an empty list, and
how far it is ahead is added to it without wrapping around. The core stops if it stores an empty
list at the top of memory, and nowhere else.
-/

namespace Handheld.Core

open MachineM CheckedM

variable {σ : Type} (core : Core σ)

/-! ## One opcode -/

/-- Execute an opcode that was fetched. -/
def executeChecked (thumb : Bool) (inst : UInt32) : CheckedM σ Unit := do
  let executing ← evaluate (·.executingChecked)
  run do note (.executing core.processor thumb executing inst (← view (·.cpsr)))
  if thumb then core.executeThumbChecked inst.toUInt16 else core.executeArmChecked inst

theorem executeNextChecked_eq :
    core.executeNextChecked =
      run core.fetchNext >>= fun p => core.executeChecked p.1 p.2 := by
  simp only [executeNextChecked, executeChecked, fetchNext, revalidateChecked_eq,
    CpuState.isFlagChecked_eq, evaluate_ok]
  rfl

/-- Whether an opcode is a block store of no registers that leaves the range, and not skipped. -/
def opcodeOverflows (thumb : Bool) (inst : UInt32) (m : Machine σ) : Bool :=
  match core.blockTransfer? thumb inst with
  | some (n, set, t) =>
    (thumb || m.cpu.holds (Arm.condition inst)) && (Register.ofSet set).isEmpty &&
      core.storesPastTop n t (core.noted thumb inst m)
  | none => false

variable {core : Core σ}

theorem executeArmChecked_eq {inst : UInt32} (h : core.blockTransfer? false inst = none) :
    core.executeArmChecked inst = run (core.executeArm inst) := by
  have hblock : ∀ n list statusBit mode,
      Arm.decode core.processor.isV5 inst ≠ .blockTransfer n list statusBit mode := by
    intro n list statusBit mode hdecode
    simp [blockTransfer?, hdecode] at h
  simp only [executeArmChecked, executeArm, Arm.conditionChecked_eq, Arm.decodeChecked_eq,
    CpuState.holdsChecked_eq, evaluate_ok, lift_ok, run_pure_bind,
    core.runArmChecked_eq rfl hblock, run_pure, run_bind, run_ite, pure_bind]

theorem executeThumbChecked_eq {inst : UInt32} (h : core.blockTransfer? true inst = none) :
    core.executeThumbChecked inst.toUInt16 = run (core.executeThumb inst.toUInt16) := by
  rw [executeThumbChecked, Thumb.decodeChecked_eq, lift_ok, run_pure_bind,
    core.runThumbChecked_eq]
  · rfl
  all_goals
    intro _ _ hdecode
    simp [blockTransfer?, hdecode] at h

/-- Looking at the program counter and the status changes nothing but the log. -/
theorem executeChecked_noted (thumb : Bool) (inst : UInt32) (m : Machine σ) :
    core.executeChecked thumb inst m =
      (if thumb then core.executeThumbChecked inst.toUInt16 else core.executeArmChecked inst)
        (core.noted thumb inst m) := by
  simp only [executeChecked, CpuState.executingChecked_eq, evaluate_ok]
  rfl

/-- An opcode that stands for a block transfer is executed as one, unless it is skipped. -/
theorem executeChecked_block {thumb : Bool} {inst : UInt32} {n : Register} {set : UInt16}
    {t : BlockTransfer} (hblock : core.blockTransfer? thumb inst = some (n, set, t))
    (m : Machine σ) :
    core.executeChecked thumb inst m =
      if thumb || m.cpu.holds (Arm.condition inst) then
        core.blockTransferChecked n set t (core.noted thumb inst m)
      else .ok ((), core.noted thumb inst m) := by
  rw [executeChecked_noted]
  cases thumb with
  | true =>
    rw [if_pos rfl, Bool.true_or, if_pos rfl, executeThumbChecked, Thumb.decodeChecked_eq, lift_ok,
      run_pure_bind]
    simp only [blockTransfer?, ↓reduceIte] at hblock
    split at hblock <;> cases hblock
    all_goals
      next hdecode =>
        rw [hdecode]
        rfl
  | false =>
    simp only [blockTransfer?, Bool.false_eq_true, ↓reduceIte] at hblock
    split at hblock <;> cases hblock
    next hdecode =>
      -- The instructions without a condition are no block transfers.
      have hconditional : (core.processor.isV5 && Arm.condition inst == 15) = false := by
        refine Bool.eq_false_iff.mpr fun hunconditional => ?_
        rw [Arm.decode, if_pos hunconditional] at hdecode
        unfold Arm.decodeUnconditional at hdecode
        split_ifs at hdecode
      simp only [executeArmChecked, Arm.conditionChecked_eq, Arm.decodeChecked_eq, hdecode,
        CpuState.holdsChecked_eq, evaluate_ok, lift_ok, run_pure_bind, hconditional,
        Bool.false_or, Bool.false_eq_true, ↓reduceIte]
      show (if m.cpu.holds (Arm.condition inst) then _ else _ : CheckedM σ Unit)
        (core.noted false inst m) = _
      cases m.cpu.holds (Arm.condition inst) <;> rfl

/-- An opcode is executed as without checks, unless it stores past the top. -/
theorem executeChecked_eq (thumb : Bool) (inst : UInt32) (m : Machine σ) :
    core.executeChecked thumb inst m =
      if core.opcodeOverflows thumb inst m then .error .outOfRange
      else .ok (core.execute thumb inst m) := by
  unfold opcodeOverflows
  cases hblock : core.blockTransfer? thumb inst with
  | none =>
    rw [executeChecked_noted]
    cases thumb with
    | true =>
      rw [if_pos rfl, executeThumbChecked_eq hblock]
      rfl
    | false =>
      rw [if_neg Bool.false_ne_true, executeArmChecked_eq hblock]
      rfl
  | some block =>
    obtain ⟨n, set, t⟩ := block
    rw [executeChecked_block hblock, execute_block hblock]
    cases (thumb || m.cpu.holds (Arm.condition inst)) with
    | true => exact core.blockTransferChecked_eq n set t (core.noted thumb inst m)
    | false => rfl

/-! ## One step -/

variable (core) in
/-- Whether a step executes such an opcode. -/
def stepOverflows (b : Board σ) : Bool :=
  core.canRun b && !core.takesInterrupt b &&
    core.opcodeOverflows (core.nextOpcode b).1 (core.nextOpcode b).2 (core.fetched b)

theorem stepBodyChecked_of_asleep {b : Board σ} (h : core.canRun b = false) :
    core.stepBodyChecked { toBoard := b } = .ok (core.stepBody { toBoard := b }) := by
  obtain ⟨hhalted, hpending⟩ : b.cpu.isHalted = true ∧
      (core.interrupts b.system).isPending = false := by
    simpa [canRun] using h
  unfold stepBodyChecked stepBody
  show (if b.cpu.isHalted then _ else _ : CheckedM σ Unit) { toBoard := b } =
    .ok ((if b.cpu.isHalted then _ else _ : MachineM σ Unit) { toBoard := b })
  rw [hhalted, if_pos rfl, if_pos rfl]
  show (if !(core.interrupts b.system).isPending then _ else _ : CheckedM σ Unit)
    { toBoard := b } =
      .ok ((if !(core.interrupts b.system).isPending then _ else _ : MachineM σ Unit)
        { toBoard := b })
  rw [hpending]
  rfl

/-- A step takes an interrupt or executes the next opcode. -/
theorem stepBodyChecked_of_awake {b : Board σ} (hrun : core.canRun b = true) :
    core.stepBodyChecked { toBoard := b } =
      (core.takeInterruptChecked >>= fun taken =>
        if !taken then core.executeNextChecked else pure ()) { toBoard := core.woken b } := by
  unfold stepBodyChecked woken
  show (if b.cpu.isHalted then _ else _ : CheckedM σ Unit) { toBoard := b } = _
  by_cases hhalted : b.cpu.isHalted = true
  · have hpending : (core.interrupts b.system).isPending = true := by
      simpa [canRun, hhalted] using hrun
    rw [if_pos hhalted, if_pos hhalted]
    show (if !(core.interrupts b.system).isPending then _ else _ : CheckedM σ Unit)
      { toBoard := b } = _
    rw [hpending]
    rfl
  · rw [if_neg hhalted, if_neg hhalted]

theorem resumeChecked_eq (m : Machine σ) :
    (core.takeInterruptChecked >>= fun taken =>
        if !taken then core.executeNextChecked else pure ()) m =
      if !core.takesInterrupt m.toBoard && core.opcodeOverflows (core.fetchNext m).1.1
          (core.fetchNext m).1.2 (core.fetchNext m).2 then .error .outOfRange
      else .ok ((core.takeInterrupt >>= fun taken => if !taken then core.executeNext else pure ())
        m) := by
  rw [takeInterruptChecked_eq]
  have hresume : (run core.takeInterrupt >>= fun taken =>
      if !taken then core.executeNextChecked else pure ()) m =
      (if !(core.takeInterrupt m).1 then core.executeNextChecked else pure () : CheckedM σ Unit)
        (core.takeInterrupt m).2 := rfl
  have hplain : (core.takeInterrupt >>= fun taken => if !taken then core.executeNext else pure ())
      m = (if !(core.takeInterrupt m).1 then core.executeNext else pure () : MachineM σ Unit)
        (core.takeInterrupt m).2 := rfl
  rw [hresume, hplain]
  cases htaken : core.takesInterrupt m.toBoard with
  | true =>
    rw [Timed.takeInterrupt_of_taken htaken]
    rfl
  | false =>
    rw [core.takeInterrupt_of_calm htaken, executeNext_eq, executeNextChecked_eq]
    exact executeChecked_eq _ _ _

/-- A processor that sleeps has nothing that could leave its range. -/
theorem stepChecked_of_asleep {b : Board σ} (h : core.canRun b = false) :
    core.stepChecked b = .ok (core.step b) := by
  rw [stepChecked, stepBodyChecked_of_asleep h]
  rfl

theorem stepChecked_of_awake {b : Board σ} (h : core.canRun b = true) :
    core.stepChecked b =
      if core.stepOverflows b then .error .outOfRange else .ok (core.step b) := by
  have hplain : core.step b = (fun r : Unit × Machine σ => (r.2.cycles, r.2.toBoard))
      (core.stepBody { toBoard := b }) := rfl
  rw [stepChecked, stepBodyChecked_of_awake h, resumeChecked_eq, takesInterrupt_woken, hplain,
    stepBody_of_awake h, stepOverflows, h, Bool.true_and, nextOpcode, fetched]
  split_ifs <;> rfl

/-- What a step with checks comes to, the step without them does. -/
theorem step_of_checked {b : Board σ} {r : UInt64 × Board σ} (h : core.stepChecked b = .ok r) :
    core.step b = r := by
  cases hrun : core.canRun b with
  | false =>
    rw [stepChecked_of_asleep hrun] at h
    exact Except.ok.inj h
  | true =>
    rw [stepChecked_of_awake hrun] at h
    split_ifs at h
    exact Except.ok.inj h

/-- **Where a step leaves the range of its words.** The core that checks every sum, difference,
product and shift, and every index, steps as the one that wraps around does, unless the step is a
store of no registers on ARMv4, in long or short instructions, with the program counter less than
an instruction's size below the end of the address space. There it stops: the sum that it stores
is the one that leaves its range. -/
theorem step_checked (core : Core σ) (b : Board σ) :
    core.stepChecked b =
      if core.stepOverflows b then .error .outOfRange else .ok (core.step b) := by
  cases hrun : core.canRun b with
  | false =>
    rw [stepChecked_of_asleep hrun, stepOverflows, hrun]
    rfl
  | true => exact stepChecked_of_awake hrun

/-- A companion processor that finds the store of no registers wherever it looks. -/
def emptyStores : Core Unit where
  processor := .arm7
  read _ _ := pure 0xE8A00000
  write _ _ _ := pure ()
  waitTime _ _ _ := pure 1
  interrupts _ := {}

/-- It starts three instructions below the end of the address space. -/
def nearTop : Board Unit where
  cpu := ({} : CpuState).startAt 0xFFFFFFF4
  system := ()
  log := {}

/-- Its first step adds four to a program counter of 0xFFFFFFFC. -/
theorem step_checked_nearTop :
    emptyStores.Reached nearTop ∧ emptyStores.stepChecked nearTop = .error .outOfRange := by
  refine ⟨.start { cpu := {}, system := (), log := {} } 0xFFFFFFF4, ?_⟩
  rw [step_checked emptyStores nearTop, if_pos (by decide)]

end Handheld.Core
