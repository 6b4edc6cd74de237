import Handheld.Proofs.Cpu.Alignment

/-!
# Interrupts and the way back

Entering an exception switches to a mode of its own, keeps the status there and leaves a return
address. `CpuState.raised` says what this makes of the processor's state, and the lemmas beside it
what is left of the register file. A handler that has put everything back returns by
`subs pc, lr, #4`, and the interrupted program goes on as if nothing had happened.
-/

namespace Handheld

open Word MachineM CpuState

variable {σ : Type}

namespace CpuState

/-- Prefetched instructions are no registers. -/
theorem regInMode_prefetched (s : CpuState) (pipeline : Vector UInt32 2) (valid : Bool) (m : Mode)
    (r : Register) :
    ({ s with pipeline := pipeline, pipelineValid := valid } : CpuState).regInMode m r =
      s.regInMode m r := rfl

/-- A register as a mode sees it is the register of the file behind it. -/
theorem regInMode_eq_physicalValue (s : CpuState) (m : Mode) (r : Register) :
    s.regInMode m r = s.physicalValue (r.physical m) := s.regInMode_eq_view m r

/-! ## Entering an exception -/

/-- A processor that has switched to the mode of an exception. -/
def switched (e : Exception) (s : CpuState) : CpuState :=
  let s := ((s.setMode e.mode).setFlag .thumb false).setFlag .irqDisable true
  if e.masksFast then s.setFlag .fiqDisable true else s

section
variable (e : Exception) (s : CpuState)

theorem mode_switched : (s.switched e).mode = e.mode := by
  have hmode : Mode.ofStatus (((s.setMode e.mode).setFlag .thumb false).setFlag
      .irqDisable true).cpsr = e.mode := by
    refine (Mode.ofStatus_setBit _ .irqDisable true).trans ?_
    refine (Mode.ofStatus_setBit _ .thumb false).trans ?_
    exact Mode.ofStatus_or_toBits s.cpsr e.mode
  unfold switched
  split
  · exact (Mode.ofStatus_setBit _ .fiqDisable true).trans hmode
  · exact hmode

theorem thumb_switched : (s.switched e).isFlag .thumb = false := by
  have hthumb : (((s.setMode e.mode).setFlag .thumb false).setFlag .irqDisable true).isFlag
      .thumb = false := by
    refine (isBit_setBit _ true (by decide) (by decide)).trans ?_
    exact isBit_setBit _ false (by decide) (by decide)
  unfold switched
  split
  · exact (isBit_setBit _ true (by decide) (by decide)).trans hthumb
  · exact hthumb

theorem physicalValue_setFlag (f : Flag) (state : Bool) :
    (s.setFlag f state).physicalValue = s.physicalValue :=
  physicalValue_withStatus s (Mode.ofStatus_setBit s.cpsr f state)

/-- A switch to another mode leaves the register file as it is. -/
theorem physicalValue_switched : (s.switched e).physicalValue = s.physicalValue := by
  unfold switched
  split
  · rw [physicalValue_setFlag, physicalValue_setFlag, physicalValue_setFlag]
    exact physicalValue_setCpsr s _
  · rw [physicalValue_setFlag, physicalValue_setFlag]
    exact physicalValue_setCpsr s _

theorem spsr_switched : (s.switched e).spsr = s.spsr := by
  unfold switched
  split <;> rfl

theorem pc_switched : (s.switched e).pc = s.pc := by
  unfold switched
  split <;> exact reg_setCpsr_pc s _

end

/-- A processor whose program counter is two words ahead of the executing instruction, whatever
instruction set it executes. -/
def realigned (s : CpuState) : CpuState := if s.isFlag .thumb then s.bumpPc 2 else s

/-- What entering an exception makes of the processor's state before the jump to the vector. -/
def raised (e : Exception) (s : CpuState) : CpuState :=
  let t := s.realigned.switched e
  (t.setReg Register.lr (t.pc - t.instructionSize)).setSavedStatus s.cpsr

section
variable (e : Exception) (s : CpuState)

theorem cpsr_realigned : s.realigned.cpsr = s.cpsr := by
  unfold realigned
  split <;> rfl

theorem spsr_realigned : s.realigned.spsr = s.spsr := by
  unfold realigned
  split <;> rfl

theorem pc_realigned : s.realigned.pc = s.pc + 4 - s.instructionSize := by
  unfold realigned instructionSize
  split
  · show (s.setReg Register.pc (s.pc + 2)).reg Register.pc = _
    rw [reg_setReg, if_pos rfl]
    grind
  · rw [UInt32.add_sub_cancel]

theorem physicalValue_realigned {p : PhysicalRegister} (hp : p ≠ .pc) :
    s.realigned.physicalValue p = s.physicalValue p := by
  unfold realigned
  split
  · show (s.setReg Register.pc _).physicalValue p = _
    rw [physicalValue_setReg, Register.physical_pc, Function.update_of_ne hp]
  · rfl

theorem hasSavedStatus_mode : e.mode.hasSavedStatus = true := by
  cases e <;> rfl

theorem raised_eq : s.raised e =
    let t := s.realigned.switched e
    { t.setReg Register.lr (t.pc - 4) with
      spsr := t.spsr.set e.mode.bank s.cpsr } := by
  let t := s.realigned.switched e
  have hmode : (t.setReg Register.lr (t.pc - 4)).mode = e.mode := mode_switched e s.realigned
  have hsize : t.instructionSize = 4 := by
    rw [instructionSize, thumb_switched]
    rfl
  show (t.setReg Register.lr (t.pc - t.instructionSize)).setSavedStatus s.cpsr = _
  rw [hsize]
  unfold setSavedStatus
  simp only [hmode, hasSavedStatus_mode, if_true]
  rfl

theorem mode_raised : (s.raised e).mode = e.mode := by
  rw [raised_eq]
  exact mode_switched e s.realigned

/-- The return address is four behind the address of the instruction that would be next but one,
as long instructions count. -/
theorem lr_raised : (s.raised e).reg Register.lr = s.pc - s.instructionSize := by
  rw [raised_eq]
  show ((s.realigned.switched e).setReg Register.lr _).reg Register.lr = _
  rw [reg_setReg, if_pos rfl, pc_switched, pc_realigned]
  grind

theorem spsr_raised : (s.raised e).spsr = s.spsr.set e.mode.bank s.cpsr := by
  rw [raised_eq]
  show (s.realigned.switched e).spsr.set e.mode.bank s.cpsr = _
  rw [spsr_switched, spsr_realigned]

/-- Of the register file, only the link register of the exception's mode and the program counter
change. -/
theorem physicalValue_raised {p : PhysicalRegister} (hpc : p ≠ .pc)
    (hlr : p ≠ .lr e.mode.bank) : (s.raised e).physicalValue p = s.physicalValue p := by
  have hlink : p ≠ Register.lr.physical (s.realigned.switched e).mode := by
    rw [mode_switched, Register.physical_lr]
    exact hlr
  rw [raised_eq]
  show ((s.realigned.switched e).setReg Register.lr _).physicalValue p = _
  rw [physicalValue_setReg, Function.update_of_ne hlink, physicalValue_switched,
    physicalValue_realigned s hpc]

end

end CpuState

namespace Core

variable {core : Core σ}

/-- The callbacks through which an exception is entered and left leave the processor alone. -/
structure QuietEntry (core : Core σ) : Prop where
  read : ∀ w address b, (core.read w address b).2.cpu = b.cpu
  waitTime : ∀ w address access b, (core.waitTime w address access b).2.cpu = b.cpu
  onException : ∀ e b, (core.onException e b).2.cpu = b.cpu

namespace QuietEntry

theorem wait (h : core.QuietEntry) (w : Width) (address : UInt32) (access : Access)
    (m : Machine σ) : (core.wait w address access m).2.cpu = m.cpu :=
  h.waitTime w address access m.toBoard

theorem peek (h : core.QuietEntry) (w : Width) (address : UInt32) (m : Machine σ) :
    (core.peek w address m).2.cpu = m.cpu := h.read w address m.toBoard

/-- A jump leaves the program counter one instruction ahead of its target. -/
theorem jump (h : core.QuietEntry) (address : UInt32) (m : Machine σ) :
    (core.jump address m).2.cpu =
      { m.cpu.startAt address with accessType := Access.sequential } := by
  let target := Address.alignDown address m.cpu.instructionSize
  let aimed : Machine σ := { m with cpu := m.cpu.setReg Register.pc target }
  let w := instructionWidth aimed.cpu
  let first := (core.wait w aimed.cpu.pc (Access.nonSequential ||| Access.code) aimed).2
  let moved : Machine σ := { first with cpu := first.cpu.bumpPc w.bytes }
  let second := (core.wait w moved.cpu.pc (Access.sequential ||| Access.code) moved).2
  have hfirst : first.cpu = aimed.cpu := h.wait ..
  have hsecond : second.cpu = moved.cpu := h.wait ..
  have hmoved : moved.cpu = m.cpu.setReg Register.pc (target + m.cpu.instructionSize) := by
    show first.cpu.bumpPc w.bytes = _
    rw [hfirst, bytes_instructionWidth]
    exact bumpPc_setReg_pc m.cpu target _
  have hjump : (core.jump address m).2 = (core.refill aimed).2 := rfl
  rw [hjump, core.refill_eq]
  show { second.cpu with pipelineValid := false, accessType := Access.sequential } = _
  rw [hsecond, hmoved]
  rfl

/-- Entering an exception jumps to its vector from the state that it has raised. -/
theorem raise (h : core.QuietEntry) (e : Exception) (m : Machine σ) :
    ∃ vector, (core.raise e m).2.cpu =
      { (m.cpu.raised e).startAt vector with accessType := Access.sequential } := by
  let told := (onBoard (core.onException e) m).2
  let entering : Machine σ := { told with cpu := told.cpu.raised e }
  have htold : told.cpu = m.cpu := h.onException e m.toBoard
  refine ⟨core.vectorBase told.system + e.vector, ?_⟩
  have hraise : (core.raise e m).2 =
      (core.jump (core.vectorBase told.system + e.vector) entering).2 := by
    have hraised : told.cpu.raised e =
        ((told.cpu.realigned.switched e).setReg Register.lr
          ((told.cpu.realigned.switched e).pc -
            (told.cpu.realigned.switched e).instructionSize)).setSavedStatus
          told.cpu.realigned.cpsr := by
      rw [cpsr_realigned]
      rfl
    show _ = (core.jump _ { told with cpu := told.cpu.raised e }).2
    rw [hraised]
    rfl
  rw [hraise, h.jump]
  show { (told.cpu.raised e).startAt _ with accessType := Access.sequential } = _
  rw [htold]

theorem revalidate (h : core.QuietEntry) (m : Machine σ) :
    ∃ pipeline, (core.revalidate m).2.cpu = { m.cpu with pipeline, pipelineValid := true } := by
  cases hvalid : m.cpu.pipelineValid with
  | true =>
    refine ⟨m.cpu.pipeline, ?_⟩
    rw [core.revalidate_of_valid hvalid, ← hvalid]
  | false =>
    let w := instructionWidth m.cpu
    let first := core.peek w (m.cpu.pc - w.bytes) m
    let second := core.peek w m.cpu.pc first.2
    refine ⟨#v[first.1, second.1], ?_⟩
    have hsecond : second.2.cpu = m.cpu := (h.peek ..).trans (h.peek ..)
    rw [core.revalidate_of_stale hvalid]
    show { second.2.cpu with pipeline := #v[first.1, second.1], pipelineValid := true } = _
    rw [hsecond]

/-- A fetch changes the program counter and what is prefetched, and no other register. -/
theorem fetchNext (h : core.QuietEntry) (m : Machine σ) :
    ∃ pipeline, (core.fetchNext m).2.cpu =
      { m.cpu.bumpPc m.cpu.instructionSize with
        pipeline, pipelineValid := true, accessType := Access.sequential } := by
  let ready := (core.revalidate m).2
  let w := instructionWidth ready.cpu
  let moved : Machine σ := { ready with cpu := ready.cpu.bumpPc w.bytes }
  let waited := (core.wait w moved.cpu.pc (moved.cpu.accessType ||| Access.code) moved).2
  let incoming := core.peek w moved.cpu.pc waited
  have hincoming : incoming.2.cpu = ready.cpu.bumpPc w.bytes := (h.peek ..).trans (h.wait ..)
  obtain ⟨pipeline, hready⟩ : ∃ pipeline, ready.cpu =
      { m.cpu with pipeline, pipelineValid := true } := h.revalidate m
  have hsize : w.bytes = ready.cpu.instructionSize := bytes_instructionWidth ready.cpu
  have hfetched : (core.fetchNext m).2.cpu =
      { ready.cpu.bumpPc ready.cpu.instructionSize with
        pipeline := #v[incoming.2.cpu.pipeline[1], incoming.1]
        accessType := Access.sequential } := by
    show { incoming.2.cpu with
      pipeline := #v[incoming.2.cpu.pipeline[1], incoming.1]
      accessType := Access.sequential } = _
    rw [hincoming, hsize]
  refine ⟨#v[incoming.2.cpu.pipeline[1], incoming.1], ?_⟩
  rw [hfetched, hready]
  rfl

/-- A return from an exception restores the status that was saved and jumps, into the instruction
set of that status, to a distance behind the link register. -/
theorem executeReturn (h : core.QuietEntry) (value rotate : UInt32) {m : Machine σ}
    (hsaved : m.cpu.mode.hasSavedStatus = true) :
    let t := (core.executeAlu .sub true Register.lr Register.pc (.immediate value rotate) m).2.cpu
    t.cpsr = m.cpu.savedStatus ∧ t.spsr = m.cpu.spsr ∧
      (∀ p ≠ PhysicalRegister.pc, t.physicalValue p = m.cpu.physicalValue p) ∧
      t.pc = Address.alignDown (m.cpu.reg Register.lr - rotateRight value rotate)
        t.instructionSize + t.instructionSize := by
  let difference := Arithmetic.sub (m.cpu.reg Register.lr) (rotateRight value rotate)
  let flagged : CpuState := { m.cpu with cpsr := Arithmetic.withSum m.cpu.cpsr difference }
  have hmode : flagged.mode = m.cpu.mode := ofStatus_congr (guardedBits_withSum _ _)
  have hstatus : flagged.savedStatus = m.cpu.savedStatus := by
    unfold savedStatus
    simp only [hmode, hsaved, if_true]
    rfl
  have hcpu : (core.executeAlu .sub true Register.lr Register.pc (.immediate value rotate)
      m).2.cpu = { (flagged.setCpsr m.cpu.savedStatus).startAt difference.value with
        accessType := Access.sequential } := by
    have hexecute : (core.executeAlu .sub true Register.lr Register.pc (.immediate value rotate)
        m).2 = (core.jump difference.value { m with cpu :=
          if flagged.mode.hasSavedStatus then flagged.setCpsr flagged.savedStatus
          else flagged }).2 := rfl
    rw [hexecute, h.jump, hmode, hsaved, if_pos rfl, hstatus]
  rw [hcpu]
  refine ⟨rfl, rfl, fun p hp => ?_, ?_⟩
  · refine (physicalValue_startAt _ _ hp).trans ?_
    rw [physicalValue_setCpsr]
    exact congrFun (physicalValue_withStatus m.cpu hmode) p
  · show ((flagged.setCpsr m.cpu.savedStatus).setReg Register.pc _).reg Register.pc = _
    rw [reg_setReg, if_pos rfl]
    rfl

/-- The machine on which a step executes its opcode shows the register file of the board. -/
theorem fetched (h : core.QuietEntry) (b : Board σ) :
    (core.fetched b).cpu.cpsr = b.cpu.cpsr ∧ (core.fetched b).cpu.spsr = b.cpu.spsr ∧
      ∀ p ≠ PhysicalRegister.pc,
        (core.fetched b).cpu.physicalValue p = b.cpu.physicalValue p := by
  obtain ⟨pipeline, hcpu⟩ := h.fetchNext { toBoard := core.woken b }
  have hfetched : (core.fetched b).cpu = _ := hcpu
  rw [hfetched, woken_cpu]
  refine ⟨rfl, rfl, fun p hp => ?_⟩
  show (b.cpu.setReg Register.pc _).physicalValue p = _
  rw [physicalValue_setReg, Register.physical_pc, Function.update_of_ne hp]

/-- What an interrupt leaves behind when it is entered: in its own bank the status and the address
of the next instruction, and everything else as it was. -/
theorem step_of_taken (h : core.QuietEntry) {b : Board σ} (hrun : core.canRun b = true)
    (htaken : core.takesInterrupt b = true) :
    let e := (core.step b).2.cpu
    e.spsr = b.cpu.spsr.set Mode.irq.bank b.cpu.cpsr ∧
      e.physicalValue (.lr Mode.irq.bank) = b.cpu.nextInstruction + 4 ∧
      ∀ p ≠ PhysicalRegister.pc, p ≠ .lr Mode.irq.bank →
        e.physicalValue p = b.cpu.physicalValue p := by
  intro e
  let s := (core.interrupted b).cpu
  obtain ⟨vector, hraised⟩ := h.raise .interruptRequest (core.interrupted b)
  have he : e = { (s.raised .interruptRequest).startAt vector with
      accessType := Access.sequential } := by
    rw [← hraised]
    exact congrArg Board.cpu (Core.step_of_taken hrun htaken)
  have hfile : ∀ p ≠ PhysicalRegister.pc,
      e.physicalValue p = (s.raised .interruptRequest).physicalValue p := by
    intro p hp
    rw [he]
    exact physicalValue_startAt _ _ hp
  have hs : s = { b.cpu.bumpPc 4 with isHalted := (core.woken b).cpu.isHalted } := by
    show (core.woken b).cpu.bumpPc 4 = _
    rw [woken_cpu]
    rfl
  refine ⟨?_, ?_, fun p hp hlr => ?_⟩
  · have hspsr : e.spsr = (s.raised .interruptRequest).spsr := by
      rw [he]
      rfl
    rw [hspsr, spsr_raised, hs]
    rfl
  · have hlr : (s.raised .interruptRequest).physicalValue (.lr Mode.irq.bank) =
        (s.raised .interruptRequest).reg Register.lr := by
      rw [← physicalValue_eq_reg, mode_raised]
      rfl
    rw [hfile _ (by decide), hlr, lr_raised, hs]
    show (b.cpu.setReg Register.pc (b.cpu.pc + 4)).reg Register.pc - b.cpu.instructionSize = _
    rw [reg_setReg, if_pos rfl, nextInstruction]
    grind
  · rw [hfile p hp, physicalValue_raised .interruptRequest s hp hlr, hs]
    show (b.cpu.setReg Register.pc _).physicalValue p = _
    rw [physicalValue_setReg, Register.physical_pc, Function.update_of_ne hp]

end QuietEntry

/-! ## There and back -/

theorem canRun_of_takesInterrupt {b : Board σ} (h : core.takesInterrupt b = true) :
    core.canRun b = true := by
  simp only [takesInterrupt, InterruptController.shouldInterrupt, Bool.and_eq_true] at h
  unfold canRun
  rw [h.1.2, Bool.or_true]

/-- A data-processing word whose condition holds is executed as such. -/
theorem execute_of_alu {word : UInt32} {op : Arm.AluOp} {setFlags : Bool} {n d : Register}
    {operand : Arm.Operand}
    (hdecode : Arm.decode core.processor.isV5 word = .alu op setFlags n d operand)
    {m : Machine σ} (hholds : m.cpu.holds (Arm.condition word) = true) :
    ∃ log, core.execute false word m = core.executeAlu op setFlags n d operand { m with log } := by
  refine ⟨(core.noted false word m).log, ?_⟩
  rw [core.execute_of_holds hholds, hdecode]
  rfl

/-- A register apart from the program counter and one bank's link register is neither in the file. -/
theorem physical_ne {m : Mode} {r : Register} {bank : Fin 6} (hpc : r ≠ Register.pc)
    (hlr : ¬ (r = Register.lr ∧ m.bank = bank)) :
    r.physical m ≠ .pc ∧ r.physical m ≠ .lr bank := by
  constructor
  · intro heq
    have hnumber := congrArg PhysicalRegister.number heq
    rw [Register.number_physical] at hnumber
    exact hpc hnumber
  · intro heq
    have hnumber := congrArg PhysicalRegister.number heq
    rw [Register.number_physical] at hnumber
    refine hlr ⟨hnumber, ?_⟩
    rw [hnumber] at heq
    exact PhysicalRegister.lr.inj heq

/-- What a step leaves behind that returns from an interrupt: the saved status, a program counter
by the link register, and everything else as it was. -/
theorem QuietEntry.step_of_return (hquiet : core.QuietEntry) {h : Board σ}
    (hmode : h.cpu.mode = .irq) (hrun : core.canRun h = true)
    (hcalm : core.takesInterrupt h = false) {word value rotate : UInt32}
    (hopcode : core.nextOpcode h = (false, word))
    (hdecode : Arm.decode core.processor.isV5 word =
      .alu .sub true Register.lr Register.pc (.immediate value rotate))
    (hholds : h.cpu.holds (Arm.condition word) = true) :
    let t := (core.step h).2.cpu
    t.cpsr = h.cpu.spsr.get Mode.irq.bank ∧ t.spsr = h.cpu.spsr ∧
      (∀ p ≠ PhysicalRegister.pc, t.physicalValue p = h.cpu.physicalValue p) ∧
      t.pc = Address.alignDown
        (h.cpu.physicalValue (.lr Mode.irq.bank) - rotateRight value rotate) t.instructionSize +
          t.instructionSize := by
  intro t
  let f := core.fetched h
  obtain ⟨hcpsrFetched, hspsrFetched, hfileFetched⟩ := hquiet.fetched h
  have hmodeFetched : f.cpu.mode = .irq := (congrArg Mode.ofStatus hcpsrFetched).trans hmode
  have hholdsFetched : f.cpu.holds (Arm.condition word) = true := by
    unfold CpuState.holds
    rw [hcpsrFetched]
    exact hholds
  obtain ⟨log, hexecute⟩ := execute_of_alu hdecode hholdsFetched
  have ht : t = (core.executeAlu .sub true Register.lr Register.pc (.immediate value rotate)
      { f with log }).2.cpu := by
    rw [← hexecute]
    show (core.step h).2.cpu = _
    rw [step_of_running hrun hcalm, hopcode]
  have hsaved : f.cpu.mode.hasSavedStatus = true := by
    rw [hmodeFetched]
    rfl
  obtain ⟨hcpsr, hspsr, hfile, hpc⟩ :=
    hquiet.executeReturn value rotate (m := { f with log }) hsaved
  rw [← ht] at hcpsr hspsr hfile hpc
  have hstatus : f.cpu.savedStatus = h.cpu.spsr.get Mode.irq.bank := by
    unfold savedStatus
    simp only [hmodeFetched]
    exact congrArg (Vector.get · Mode.irq.bank) hspsrFetched
  have hlr : f.cpu.reg Register.lr = h.cpu.physicalValue (.lr Mode.irq.bank) := by
    rw [← physicalValue_eq_reg, hmodeFetched]
    exact hfileFetched _ (by decide)
  refine ⟨hcpsr.trans hstatus, hspsr.trans hspsrFetched,
    fun p hp => (hfile p hp).trans (hfileFetched p hp), hpc.trans ?_⟩
  show Address.alignDown (f.cpu.reg Register.lr - rotateRight value rotate) _ + _ = _
  rw [hlr]

/-- **An interrupt is transparent.** A board that a core has reached takes an interrupt. Later, in
interrupt mode, with every register but the program counter and with every saved status as the
entry left them, it executes `subs pc, lr, #4`. The interrupted program then has its status, its
program counter and next instruction, and all its registers and saved statuses back, apart from
the link register and the saved status of the interrupt mode. -/
theorem interrupt_transparent (core : Core σ) (hplace : core.Within SamePlace)
    (hquiet : core.QuietEntry) {b : Board σ} (run : core.Reached b)
    (htaken : core.takesInterrupt b = true) {h : Board σ} (hmode : h.cpu.mode = .irq)
    (hregs : ∀ (m : Mode) (r : Register), r ≠ Register.pc →
      h.cpu.regInMode m r = (core.step b).2.cpu.regInMode m r)
    (hspsr : h.cpu.spsr = (core.step b).2.cpu.spsr) (hrun : core.canRun h = true)
    (hcalm : core.takesInterrupt h = false) {word value rotate : UInt32}
    (hopcode : core.nextOpcode h = (false, word))
    (hdecode : Arm.decode core.processor.isV5 word =
      .alu .sub true Register.lr Register.pc (.immediate value rotate))
    (hfour : rotateRight value rotate = 4)
    (hholds : h.cpu.holds (Arm.condition word) = true) :
    let t := (core.step h).2.cpu
    t.cpsr = b.cpu.cpsr ∧ t.pc = b.cpu.pc ∧ t.nextInstruction = b.cpu.nextInstruction ∧
      (∀ (m : Mode) (r : Register), ¬ (r = Register.lr ∧ m.bank = Mode.irq.bank) →
        t.regInMode m r = b.cpu.regInMode m r) ∧
      ∀ bank : Fin 6, bank ≠ Mode.irq.bank → t.spsr.get bank = b.cpu.spsr.get bank := by
  intro t
  obtain ⟨hentrySpsr, hentryLr, hentry⟩ :=
    hquiet.step_of_taken (canRun_of_takesInterrupt htaken) htaken
  obtain ⟨hcpsr, hspsr', hfile, hpc⟩ :=
    hquiet.step_of_return hmode hrun hcalm hopcode hdecode hholds
  have hsaved : h.cpu.spsr = b.cpu.spsr.set Mode.irq.bank b.cpu.cpsr := hspsr.trans hentrySpsr
  have hstatus : t.cpsr = b.cpu.cpsr := by
    refine hcpsr.trans ?_
    rw [hsaved]
    exact Vector.getElem_set_self _
  have hsize : t.instructionSize = b.cpu.instructionSize :=
    instructionSize_congr (isFlag_congr hstatus .thumb)
  have hlr : h.cpu.physicalValue (.lr Mode.irq.bank) = b.cpu.nextInstruction + 4 := by
    calc h.cpu.physicalValue (.lr Mode.irq.bank) = h.cpu.regInMode .irq Register.lr := by
          rw [regInMode_eq_physicalValue]
          rfl
      _ = (core.step b).2.cpu.physicalValue (.lr Mode.irq.bank) := by
          rw [hregs .irq Register.lr (by decide), regInMode_eq_physicalValue]
          rfl
      _ = b.cpu.nextInstruction + 4 := hentryLr
  have hreturn : t.pc = b.cpu.pc := by
    obtain ⟨k, -, htwo⟩ := b.cpu.instructionSize_eq_two_pow
    refine hpc.trans ?_
    show Address.alignDown _ t.instructionSize + t.instructionSize = _
    rw [hlr, hfour, UInt32.add_sub_cancel, hsize,
      Address.alignDown_of_dvd htwo (run.aligned hplace).dvd_nextInstruction, nextInstruction,
      UInt32.sub_add_cancel]
  refine ⟨hstatus, hreturn, ?_, ?_, ?_⟩
  · unfold nextInstruction
    rw [hreturn, hsize]
  · intro m r hr
    by_cases hrpc : r = Register.pc
    · rw [hrpc]
      exact hreturn
    · obtain ⟨hp, hp'⟩ := physical_ne hrpc hr
      calc t.regInMode m r = h.cpu.regInMode m r := by
            rw [regInMode_eq_physicalValue, hfile _ hp, regInMode_eq_physicalValue]
        _ = (core.step b).2.cpu.physicalValue (r.physical m) := by
            rw [hregs m r hrpc, regInMode_eq_physicalValue]
        _ = b.cpu.regInMode m r := by
            rw [hentry _ hp hp', regInMode_eq_physicalValue]
  · intro bank hbank
    rw [hspsr', hsaved]
    exact Vector.getElem_set_ne _ _ (Fin.val_ne_of_ne hbank.symm)

end Core
namespace FlatMemory

theorem fullCore_quietEntry (p : Processor) : (fullCore p).QuietEntry :=
  ⟨fun _ _ _ => rfl, fun _ _ _ _ => rfl, fun _ _ => rfl⟩

/-- A board whose handler of the interrupt is about to return. -/
def handlerDone : Board FlatMemory :=
  { interruptEntered with
    cpu := { interruptEntered.cpu with pipeline := #v[0xE25EF004, 0], pipelineValid := true } }

theorem cpu_handlerDone : handlerDone.cpu =
    { interruptEntered.cpu with pipeline := #v[0xE25EF004, 0], pipelineValid := true } := rfl

/-- The interrupted program goes on with short instructions where it was. -/
theorem interrupt_transparent_short :
    let t := ((fullCore .arm9).step handlerDone).2.cpu
    t.cpsr = 0x3F ∧ t.nextInstruction = 0x102 ∧
      t.regInMode .system Register.lr = beforeInterrupt.cpu.regInMode .system Register.lr := by
  have hregs : ∀ (m : Mode) (r : Register), r ≠ Register.pc →
      handlerDone.cpu.regInMode m r = interruptEntered.cpu.regInMode m r := fun m r _ => by
    rw [cpu_handlerDone, regInMode_prefetched]
  have hspsr : handlerDone.cpu.spsr = interruptEntered.cpu.spsr := by rw [cpu_handlerDone]
  have hopcode : (fullCore .arm9).nextOpcode handlerDone = (false, 0xE25EF004) := by decide
  have hdecode : Arm.decode (fullCore .arm9).processor.isV5 0xE25EF004 =
      .alu .sub true Register.lr Register.pc (.immediate 4 0) := by decide
  have hfour : rotateRight 4 0 = 4 := by decide
  obtain ⟨hcpsr, -, hnext, hkept, -⟩ := Core.interrupt_transparent (fullCore .arm9)
    (fullCore_within_samePlace .arm9) (fullCore_quietEntry .arm9) (.start beforeInterrupt 0x103)
    (by decide) (by decide) hregs hspsr (by decide) (by decide) hopcode hdecode hfour (by decide)
  exact ⟨hcpsr, hnext, hkept .system Register.lr (by decide)⟩

end FlatMemory
end Handheld
