import Handheld.Proofs.Cpu.Alignment

/-!
# Prefetched opcodes

The two prefetched opcodes are those that the memory holds around the next instruction, so that
fetching ahead does not show: a step executes the opcode that is stored at the address of the next
instruction. Only a skid breaks this, and after a skid the processor goes on with the opcode
behind the instruction that skidded.
-/

namespace Handheld

open MachineM CpuState

variable {σ : Type}

namespace CpuState

/-- The second state differs from the first neither in its place nor in what was prefetched. -/
structure SameFetch (s t : CpuState) : Prop extends s.SamePlace t where
  pipeline : t.pipeline = s.pipeline
  pipelineValid : t.pipelineValid = s.pipelineValid

variable {s t u : CpuState}

theorem SameFetch.refl (s : CpuState) : s.SameFetch s := ⟨⟨rfl, rfl⟩, rfl, rfl⟩

theorem SameFetch.trans (h : s.SameFetch t) (h' : t.SameFetch u) : s.SameFetch u :=
  ⟨⟨h'.pc.trans h.pc, h'.cpsr.trans h.cpsr⟩, h'.pipeline.trans h.pipeline,
    h'.pipelineValid.trans h.pipelineValid⟩

end CpuState

namespace Core

/-- What a system has stored, by width and address. -/
abbrev Store (σ : Type) := σ → Width → UInt32 → UInt32

/-- A core whose bus reads what is stored. Reading and waiting store nothing, and no callback
touches the place of execution or what was prefetched. -/
structure Backed (core : Core σ) (stored : Store σ) : Prop where
  within : core.Within SameFetch
  read : ∀ w address b, w.truncate (core.read w address b).1 = stored b.system w address
  read_stored : ∀ w address b, stored (core.read w address b).2.system = stored b.system
  waitTime_stored : ∀ w address access b,
    stored (core.waitTime w address access b).2.system = stored b.system

/-- Opcodes that are prefetched and not stale are those that are stored at the address of the next
instruction and behind it. -/
def Prefetched (stored : Store σ) (b : Board σ) : Prop :=
  b.cpu.pipelineValid = true →
    b.cpu.pipeline = #v[stored b.system (instructionWidth b.cpu) b.cpu.nextInstruction,
      stored b.system (instructionWidth b.cpu) b.cpu.pc]

variable {core : Core σ} {stored : Store σ}

/-! ## Fetching -/

namespace Backed

theorem samePlace (h : core.Backed stored) : core.Within SamePlace :=
  h.within.mono fun _ _ hfetch => hfetch.toSamePlace

theorem peek (h : core.Backed stored) (w : Width) (address : UInt32) (m : Machine σ) :
    (core.peek w address m).1 = stored m.system w address ∧
      stored (core.peek w address m).2.system = stored m.system ∧
      m.cpu.SameFetch (core.peek w address m).2.cpu :=
  ⟨h.read w address m.toBoard, h.read_stored w address m.toBoard,
    h.within.read w address m.toBoard⟩

theorem wait (h : core.Backed stored) (w : Width) (address : UInt32) (access : Access)
    (m : Machine σ) :
    stored (core.wait w address access m).2.system = stored m.system ∧
      m.cpu.SameFetch (core.wait w address access m).2.cpu :=
  ⟨h.waitTime_stored w address access m.toBoard, h.within.waitTime w address access m.toBoard⟩

/-- Once they have been read again where they were stale, the prefetched opcodes are those that
are stored. -/
theorem revalidate (h : core.Backed stored) {m : Machine σ} (hm : Prefetched stored m.toBoard) :
    let t := (core.revalidate m).2
    m.cpu.SamePlace t.cpu ∧ t.cpu.pipelineValid = true ∧ stored t.system = stored m.system ∧
      t.cpu.pipeline = #v[stored m.system (instructionWidth m.cpu) m.cpu.nextInstruction,
        stored m.system (instructionWidth m.cpu) m.cpu.pc] := by
  cases hvalid : m.cpu.pipelineValid with
  | true =>
    rw [core.revalidate_of_valid hvalid]
    exact ⟨⟨rfl, rfl⟩, hvalid, rfl, hm hvalid⟩
  | false =>
    rw [core.revalidate_of_stale hvalid]
    let w := instructionWidth m.cpu
    let first := core.peek w (m.cpu.pc - w.bytes) m
    let second := core.peek w m.cpu.pc first.2
    obtain ⟨hfirst, hfirstStored, hfirstCpu⟩ := h.peek w (m.cpu.pc - w.bytes) m
    obtain ⟨hsecond, hsecondStored, hsecondCpu⟩ := h.peek w m.cpu.pc first.2
    have hplace := (hfirstCpu.trans hsecondCpu).toSamePlace
    refine ⟨⟨hplace.pc, hplace.cpsr⟩, rfl, hsecondStored.trans hfirstStored, ?_⟩
    show #v[first.1, second.1] = _
    have hbytes : w.bytes = m.cpu.instructionSize := bytes_instructionWidth m.cpu
    rw [hfirst, hsecond, hfirstStored, hbytes]
    rfl

/-- A fetch takes the stored opcode of the next instruction and leaves the two behind it. -/
theorem fetchNext (h : core.Backed stored) {m : Machine σ} (hm : Prefetched stored m.toBoard) :
    let w := instructionWidth m.cpu
    let t := (core.fetchNext m).2
    (core.fetchNext m).1.2 = stored m.system w m.cpu.nextInstruction ∧
      stored t.system = stored m.system ∧ t.cpu.pipelineValid = true ∧
      t.cpu.pipeline = #v[stored m.system w m.cpu.pc,
        stored m.system w (m.cpu.pc + m.cpu.instructionSize)] := by
  let ready := (core.revalidate m).2
  let w := instructionWidth ready.cpu
  let moved : Machine σ := { ready with cpu := ready.cpu.bumpPc w.bytes }
  let waited := (core.wait w moved.cpu.pc (moved.cpu.accessType ||| Access.code) moved).2
  let incoming := core.peek w moved.cpu.pc waited
  obtain ⟨hplace, hvalid, hstored, hpipeline⟩ := h.revalidate hm
  obtain ⟨hwaitedStored, hwaited⟩ := h.wait w moved.cpu.pc
    (moved.cpu.accessType ||| Access.code) moved
  obtain ⟨hvalue, hincomingStored, hincoming⟩ := h.peek w moved.cpu.pc waited
  have hw : w = instructionWidth m.cpu := by
    show instructionWidth ready.cpu = _
    unfold instructionWidth
    rw [hplace.isFlag]
  have hsize : w.bytes = m.cpu.instructionSize := by rw [hw, bytes_instructionWidth]
  have hmoved : moved.cpu.pc = m.cpu.pc + m.cpu.instructionSize := by
    show (ready.cpu.setReg Register.pc (ready.cpu.pc + w.bytes)).reg Register.pc = _
    rw [reg_setReg, if_pos rfl, hplace.pc, hsize]
  have hkept : incoming.2.cpu.pipeline = #v[stored m.system w m.cpu.nextInstruction,
      stored m.system w m.cpu.pc] := by
    rw [hincoming.pipeline, hwaited.pipeline, hw]
    exact hpipeline
  have hsystem : stored waited.system = stored m.system := hwaitedStored.trans hstored
  refine ⟨?_, hincomingStored.trans hsystem, ?_, ?_⟩
  · show incoming.2.cpu.pipeline.head = _
    rw [hkept, hw]
    rfl
  · show incoming.2.cpu.pipelineValid = true
    rw [hincoming.pipelineValid, hwaited.pipelineValid]
    exact hvalid
  · show #v[incoming.2.cpu.pipeline[1], incoming.1] = _
    rw [hkept, hvalue, hsystem, hmoved, hw]
    rfl

/-- The opcode that a step executes, and what the machine that executes it has prefetched. -/
theorem fetched (h : core.Backed stored) {b : Board σ} (hb : Prefetched stored b) :
    core.nextOpcode b =
        (b.cpu.isFlag .thumb, stored b.system (instructionWidth b.cpu) b.cpu.nextInstruction) ∧
      stored (core.fetched b).system = stored b.system ∧
      (core.fetched b).cpu.pipelineValid = true ∧
      (core.fetched b).cpu.pipeline = #v[stored b.system (instructionWidth b.cpu) b.cpu.pc,
        stored b.system (instructionWidth b.cpu) (b.cpu.pc + b.cpu.instructionSize)] := by
  have hwoken : Prefetched stored (core.woken b) := by
    unfold Prefetched
    rw [woken_cpu, woken_system]
    exact hb
  obtain ⟨hopcode, hsystem, hvalid, hpipeline⟩ :=
    h.fetchNext (m := { toBoard := core.woken b }) hwoken
  obtain ⟨hthumb, -, -⟩ := h.samePlace.fetched b
  refine ⟨Prod.ext hthumb (hopcode.trans ?_), hsystem.trans ?_, hvalid, hpipeline.trans ?_⟩
  · show stored (core.woken b).system (instructionWidth (core.woken b).cpu)
      (core.woken b).cpu.nextInstruction = _
    rw [woken_cpu, woken_system]
    rfl
  · show stored (core.woken b).system = _
    rw [woken_system]
  · show #v[stored (core.woken b).system (instructionWidth (core.woken b).cpu)
        (core.woken b).cpu.pc,
      stored (core.woken b).system (instructionWidth (core.woken b).cpu)
        ((core.woken b).cpu.pc + (core.woken b).cpu.instructionSize)] = _
    rw [woken_cpu, woken_system]
    rfl

/-! ## Steps -/

/-- Where a property holds only of what is stale, every jump gives it. -/
theorem steady (h : core.Backed stored) {P : CpuState → Prop}
    (hfetch : ∀ {s t : CpuState}, t.pc = s.pc → t.isFlag .thumb = s.isFlag .thumb →
      t.pipeline = s.pipeline → t.pipelineValid = s.pipelineValid → P s → P t)
    (hstale : ∀ {s : CpuState}, s.pipelineValid = false → P s) : core.Steady P where
  congr hcourse := hfetch hcourse.pc hcourse.thumb hcourse.pipeline hcourse.pipelineValid
  landed _ hstale' := hstale hstale'
  within := h.within.mono fun _ _ hsame => ⟨hsame.toSamePlace,
    hfetch hsame.pc (hsame.isFlag .thumb) hsame.pipeline hsame.pipelineValid⟩

end Backed

/-- Whether the next step executes an opcode that skids. -/
def skidsNext (core : Core σ) (b : Board σ) : Bool :=
  core.canRun b && !core.takesInterrupt b &&
    core.skids (core.nextOpcode b).1 (core.nextOpcode b).2 (core.fetched b).cpu

/-- From the first board to the second none of the opcodes that are prefetched there was
overwritten. -/
def KeepsPrefetched (stored : Store σ) (b e : Board σ) : Prop :=
  e.cpu.pipelineValid = true → ∀ address, address = e.cpu.nextInstruction ∨ address = e.cpu.pc →
    stored e.system (instructionWidth e.cpu) address =
      stored b.system (instructionWidth e.cpu) address

/-- A step that does not skid leaves prefetched what is stored. -/
theorem Backed.step (h : core.Backed stored) {b : Board σ} (hb : Prefetched stored b)
    (hskid : core.skidsNext b = false) (hkept : KeepsPrefetched stored b (core.step b).2) :
    Prefetched stored (core.step b).2 := by
  cases hrun : core.canRun b with
  | false =>
    rw [step_of_asleep hrun]
    exact hb
  | true =>
    cases htaken : core.takesInterrupt b with
    | true =>
      have hstale : (core.step b).2.cpu.pipelineValid = false := by
        have hsteady : core.Steady fun s => s.pipelineValid = false :=
          h.steady (fun _ _ _ hvalid hs => hvalid.trans hs) id
        rw [step_of_taken hrun htaken]
        exact (hsteady.raise .interruptRequest).cpu _
      intro hvalid
      rw [hstale] at hvalid
      cases hvalid
    | false =>
      let t := core.fetched b
      obtain ⟨hopcode, hsystem, hvalid, hpipeline⟩ := h.fetched hb
      obtain ⟨hthumb, hpc, hcpsr⟩ := h.samePlace.fetched b
      -- Unless it jumps, the instruction stays where the fetch has left the processor.
      let P : CpuState → Prop := fun s => s.pipelineValid = true →
        s.pc = t.cpu.pc ∧ s.isFlag .thumb = t.cpu.isFlag .thumb ∧ s.pipeline = t.cpu.pipeline
      have hsteady : core.Steady P := by
        refine h.steady ?_ ?_
        · intro s s' hpc' hthumb' hpipeline' hvalid' hs hs'
          rw [hpc', hthumb', hpipeline']
          exact hs (hvalid'.symm.trans hs')
        · intro s hstale hs
          rw [hstale] at hs
          cases hs
      have hset : t.cpu.isFlag .thumb = (core.nextOpcode b).1 :=
        (isFlag_congr hcpsr .thumb).trans hthumb.symm
      have hdone : P (core.step b).2.cpu := by
        rw [step_of_running hrun htaken]
        refine hsteady.execute _ (fun _ => ⟨rfl, rfl, rfl⟩) hset fun hskids => ?_
        unfold skidsNext at hskid
        rw [hrun, htaken, hskids] at hskid
        cases hskid
      intro hstays
      obtain ⟨hpc', hthumb', hpipeline'⟩ := hdone hstays
      have hset' : (core.step b).2.cpu.isFlag .thumb = b.cpu.isFlag .thumb :=
        hthumb'.trans (isFlag_congr hcpsr .thumb)
      have hwidth : instructionWidth (core.step b).2.cpu = instructionWidth b.cpu := by
        rw [instructionWidth, hset', instructionWidth]
      have hnext : (core.step b).2.cpu.nextInstruction = b.cpu.pc := by
        unfold nextInstruction
        rw [hpc', hpc, instructionSize_congr hset', UInt32.add_sub_cancel]
      rw [hkept hstays _ (.inl rfl), hkept hstays _ (.inr rfl), hwidth, hnext, hpc', hpc,
        hpipeline', hpipeline]

/-! ## Runs -/

/-- Runs from an address on that do not skid, and in which nothing is overwritten once it was
prefetched. -/
inductive Undisturbed (core : Core σ) (stored : Store σ) : Board σ → Prop
  | start (b : Board σ) (address : UInt32) :
    Undisturbed core stored { b with cpu := b.cpu.startAt address }
  | step {b : Board σ} (run : Undisturbed core stored b) (hskid : core.skidsNext b = false)
      (hkept : KeepsPrefetched stored b (core.step b).2) : Undisturbed core stored (core.step b).2

theorem Undisturbed.prefetched (hcore : core.Backed stored) {b : Board σ}
    (run : core.Undisturbed stored b) : Prefetched stored b := by
  induction run with
  | start b address =>
    intro hvalid
    cases hvalid
  | step _ hskid hkept ih => exact hcore.step ih hskid hkept

/-! ## Skids -/

/-- A base moves by at least one word and by less than the range of addresses. -/
theorem newBase_ne (t : BlockTransfer) (base : UInt32) {count : ℕ} (hpos : 0 < count)
    (hle : count ≤ 16) : t.newBase base count ≠ base := by
  have hfour : (4 : UInt32).toNat = 4 := rfl
  have hcount : (UInt32.ofNat count).toNat = count := by
    rw [UInt32.toNat_ofNat']
    exact Nat.mod_eq_of_lt (by omega)
  have hdistance : (4 * UInt32.ofNat count).toNat = 4 * count := by
    rw [UInt32.toNat_mul, hfour, hcount]
    exact Nat.mod_eq_of_lt (by omega)
  have hbase := base.toNat_lt
  rw [ne_eq, ← UInt32.toNat_inj]
  unfold BlockTransfer.newBase Address.move
  split
  · rw [UInt32.toNat_add, hdistance]
    omega
  · rw [UInt32.toNat_sub, hdistance]
    omega

/-- To be at the place of a state is stable where no callback touches it. -/
theorem Within.stable (h : core.Within SameFetch) (s : CpuState) : core.Stable s.SameCourse where
  congr hcourse hs := hs.trans hcourse
  within := h.mono fun _ _ hsame => ⟨hsame.toSamePlace, fun hs =>
    hs.trans ⟨hsame.pc, hsame.isFlag .thumb, hsame.pipeline, hsame.pipelineValid⟩⟩

/-- The second state is somewhere else than the first, but has the same opcodes prefetched. -/
structure Skidded (s t : CpuState) : Prop where
  pipeline : t.pipeline = s.pipeline
  pipelineValid : t.pipelineValid = s.pipelineValid
  moved : t.isFlag .thumb = true ∨ t.isFlag .thumb = s.isFlag .thumb ∧ t.pc ≠ s.pc

/-- A comparison that names the program counter changes the instruction set. -/
theorem executeAlu_skids (op : Arm.AluOp) (setFlags : Bool) (n d : Register)
    (operand : Arm.Operand) {m : Machine σ}
    (hskids : (Arm.Instruction.alu op setFlags n d operand).skids m.cpu = true) :
    Skidded m.cpu (core.executeAlu op setFlags n d operand m).2.cpu := by
  simp only [Arm.Instruction.skids, Bool.and_eq_true, beq_iff_eq, Bool.not_eq_true'] at hskids
  obtain ⟨⟨⟨⟨hflags, hd⟩, hwrites⟩, hsaved⟩, hshort⟩ := hskids
  obtain ⟨flagged, value, hexecute, hcourse, hmode, hsavedStatus⟩ :=
    executeAlu_flags core op n d operand m
  have hsaved' : flagged.cpu.mode.hasSavedStatus = true := by rw [hmode, hsaved]
  have hcpu : (core.executeAlu op setFlags n d operand m).2.cpu =
      flagged.cpu.setCpsr flagged.cpu.savedStatus := by
    rw [hflags, hexecute, hd, hwrites]
    exact if_pos hsaved'
  rw [hcpu]
  refine ⟨hcourse.pipeline, hcourse.pipelineValid, .inl ?_⟩
  rw [hsavedStatus hsaved]
  exact hshort

/-- A block transfer moves the program counter as its base. -/
theorem blockTransfer_skids (h : core.Within SameFetch) (set : UInt16) (t : BlockTransfer)
    (hlist : Register.ofSet set ≠ []) (hwriteback : t.writeback = true)
    (hstays : (t.load && (Register.ofSet set).contains Register.pc) = false) (m : Machine σ) :
    Skidded m.cpu (core.blockTransfer Register.pc set t m).2.cpu := by
  let list := Register.ofSet set
  let newBase := t.newBase (m.cpu.reg Register.pc) list.length
  have hmoves : t.movesBase core.processor.isV5 Register.pc list = true := by
    unfold BlockTransfer.movesBase
    rw [hwriteback]
    cases hload : t.load with
    | false => rfl
    | true =>
      have hlacks : list.contains Register.pc = false := by
        rw [hload] at hstays
        exact hstays
      rw [hlacks]
      rfl
  have hnew : newBase ≠ m.cpu.pc :=
    newBase_ne t _ (List.length_pos_iff.mpr hlist) (Register.length_ofSet_le set)
  -- Whatever was transferred, the end of the transfer finds the processor as it was.
  have hend : ∀ transferred : Machine σ, m.cpu.SameCourse transferred.cpu →
      Skidded m.cpu (core.finishTransfer Register.pc newBase true t.load t.statusBit none
        transferred).2.cpu := by
    intro transferred hcourse
    rw [finishTransfer_moved]
    refine ⟨hcourse.pipeline, hcourse.pipelineValid, .inr ⟨hcourse.thumb, ?_⟩⟩
    rw [CpuState.pc, reg_setReg, if_pos rfl]
    exact hnew
  have hstable := h.stable m.cpu
  cases hload : t.load with
  | true =>
    let loaded := core.loadBlock (t.userBank list) list (t.lowest (m.cpu.reg Register.pc)
      list.length) Access.nonSequential m
    have hloaded : m.cpu.SameCourse loaded.2.cpu := (hstable.loadBlock _ _ _ _).cpu m (.refl _)
    have hnone : loaded.1 = none := by
      rw [hload] at hstays
      exact loadBlock_eq_none hstays _ _ _ _
    have hend := hend loaded.2 hloaded
    rw [hload] at hend
    rw [core.blockTransfer_of_load hlist hload]
    show Skidded m.cpu (core.finishTransfer _ _ (t.movesBase core.processor.isV5 Register.pc list)
      true _ loaded.1 loaded.2).2.cpu
    rw [hmoves, hnone]
    exact hend
  | false =>
    have hstored := (hstable.storeBlock (core.storedValue Register.pc list.head? newBase
      (t.userBank list)) list (t.lowest (m.cpu.reg Register.pc) list.length)
      Access.nonSequential).cpu m (.refl _)
    have hend := hend _ hstored
    rw [hload] at hend
    rw [core.blockTransfer_of_store hlist hload]
    show Skidded m.cpu (core.finishTransfer _ _ (t.movesBase core.processor.isV5 Register.pc list)
      false _ none _).2.cpu
    rw [hmoves]
    exact hend

/-- An opcode that skids leaves the processor somewhere else, with what was prefetched before. -/
theorem execute_skids (h : core.Within SameFetch) {thumb : Bool} {inst : UInt32} {m : Machine σ}
    (hskids : core.skids thumb inst m.cpu = true) :
    Skidded m.cpu (core.execute thumb inst m).2.cpu := by
  simp only [skids, Bool.and_eq_true, Bool.not_eq_true'] at hskids
  obtain ⟨⟨hthumb, hholds⟩, hskids⟩ := hskids
  subst hthumb
  rw [core.execute_long, if_pos hholds]
  cases hdecode : Arm.decode core.processor.isV5 inst with
  | alu op setFlags n d operand =>
    rw [hdecode] at hskids
    exact executeAlu_skids (m := core.noted false inst m) op setFlags n d operand hskids
  | blockTransfer n set statusBit mode =>
    rw [hdecode] at hskids
    simp only [Arm.Instruction.skids, Bool.and_eq_true, beq_iff_eq, Bool.not_eq_true'] at hskids
    obtain ⟨⟨⟨hn, hlist⟩, hwriteback⟩, hstays⟩ := hskids
    subst hn
    exact blockTransfer_skids h set _ (by simpa using hlist) hwriteback hstays
      (core.noted false inst m)
  | _ =>
    rw [hdecode] at hskids
    cases hskids

-- A load of r0 from the program counter on, which is left behind the block.
example : (Arm.decode false 0xE8BF0001).skids {} = true := by decide

-- A comparison with the flags of a supervisor whose saved status chooses short instructions.
example : (Arm.decode false 0xE33FF000).skids
    { spsr := Vector.replicate 6 0x3F } = true := by decide

/-- What is prefetched and valid is executed next. -/
theorem Within.nextOpcode_of_valid (h : core.Within SameFetch) {b : Board σ}
    (hvalid : b.cpu.pipelineValid = true) : (core.nextOpcode b).2 = b.cpu.pipeline.head := by
  have hwoken : (core.woken b).cpu.pipelineValid = true := by
    rw [woken_cpu]
    exact hvalid
  let m : Machine σ := { toBoard := core.woken b }
  let w := instructionWidth m.cpu
  let moved : Machine σ := { m with cpu := m.cpu.bumpPc w.bytes }
  let waited := (core.wait w moved.cpu.pc (moved.cpu.accessType ||| Access.code) moved).2
  let incoming := core.peek w moved.cpu.pc waited
  have hwaited : moved.cpu.SameFetch waited.cpu := h.waitTime _ _ _ moved.toBoard
  have hincoming : waited.cpu.SameFetch incoming.2.cpu := h.read _ _ waited.toBoard
  have hopcode : (core.nextOpcode b).2 = incoming.2.cpu.pipeline.head := by
    unfold nextOpcode
    rw [core.fetchNext_eq, core.revalidate_of_valid (m := m) hwoken]
    rfl
  have hpipeline : incoming.2.cpu.pipeline = (core.woken b).cpu.pipeline :=
    hincoming.pipeline.trans hwaited.pipeline
  rw [hopcode, hpipeline, woken_cpu]

/-- After a skid the processor executes the opcode behind the instruction that skidded, wherever
it has moved. -/
theorem Backed.step_skids (h : core.Backed stored) {b : Board σ} (hb : Prefetched stored b)
    (hskids : core.skidsNext b = true) :
    (core.nextOpcode (core.step b).2).2 = stored b.system .word b.cpu.pc ∧
      ((core.step b).2.cpu.isFlag .thumb = true ∨
        (core.step b).2.cpu.nextInstruction ≠ b.cpu.pc) := by
  simp only [skidsNext, Bool.and_eq_true, Bool.not_eq_true'] at hskids
  obtain ⟨⟨hrun, hcalm⟩, hskids⟩ := hskids
  have harm : (core.nextOpcode b).1 = false := by
    simp only [skids, Bool.and_eq_true, Bool.not_eq_true'] at hskids
    exact hskids.1.1
  obtain ⟨-, -, hvalid, hpipeline⟩ := h.fetched hb
  obtain ⟨hthumb, hpc, hcpsr⟩ := h.samePlace.fetched b
  have hlong : b.cpu.isFlag .thumb = false := hthumb.symm.trans harm
  have hwidth : instructionWidth b.cpu = .word := by
    rw [instructionWidth, hlong]
    rfl
  obtain ⟨hpipeline', hvalid', hmoved⟩ := execute_skids h.within hskids
  rw [← step_of_running hrun hcalm] at hpipeline' hvalid' hmoved
  refine ⟨?_, hmoved.imp_right fun hstays => ?_⟩
  · rw [h.within.nextOpcode_of_valid (hvalid'.trans hvalid), hpipeline', hpipeline, hwidth]
    rfl
  · obtain ⟨hset, hne⟩ := hstays
    have hset' : (core.step b).2.cpu.isFlag .thumb = b.cpu.isFlag .thumb :=
      hset.trans (isFlag_congr hcpsr .thumb)
    intro hnext
    apply hne
    unfold nextInstruction at hnext
    rw [instructionSize_congr hset'] at hnext
    rw [hpc, ← hnext, UInt32.sub_add_cancel]

/-- **Prefetching does not show, unless an instruction skids.** On a bus that reads what is
stored, a run that overwrites nothing it has prefetched executes at every step the opcode stored
at the address of the next instruction, read in the width of the current instruction set, and
whatever is prefetched between two steps is what is stored there. The first step that skids ends
this: the processor has moved or changed its instruction set, and goes on with the word behind
the instruction that did it. -/
theorem prefetch_invisible (hcore : core.Backed stored) {b : Board σ}
    (run : core.Undisturbed stored b) :
    let w := if b.cpu.isFlag .thumb then Width.half else Width.word
    (b.cpu.pipelineValid = true →
      b.cpu.pipeline = #v[stored b.system w (b.cpu.pc - b.cpu.instructionSize),
        stored b.system w b.cpu.pc]) ∧
    (core.canRun b = true → core.takesInterrupt b = false →
      (core.step b).2 = (core.execute (b.cpu.isFlag .thumb)
        (stored b.system w b.cpu.nextInstruction) (core.fetched b)).2.toBoard) ∧
    (core.skidsNext b = true →
      (core.nextOpcode (core.step b).2).2 = stored b.system .word b.cpu.pc ∧
        ((core.step b).2.cpu.isFlag .thumb = true ∨
          (core.step b).2.cpu.nextInstruction ≠ b.cpu.pc)) := by
  intro w
  have hprefetched := run.prefetched hcore
  refine ⟨hprefetched, ?_, hcore.step_skids hprefetched⟩
  intro hrun hcalm
  obtain ⟨hopcode, -⟩ := hcore.fetched hprefetched
  rw [step_of_running hrun hcalm, hopcode]
  rfl

end Core
namespace FlatMemory

/-- What a flat memory has stored, cut to the width of the access. -/
def stored : Core.Store FlatMemory := fun m w address => w.truncate (m.get w address)

theorem stored_word (m : FlatMemory) (address : UInt32) :
    stored m .word address = m.get .word address := rfl

theorem fullCore_backed (p : Processor) : (fullCore p).Backed stored where
  within := (fullCore_within p).mono fun _ _ h => h ▸ .refl _
  read w address b := congrArg w.truncate (get_record b.system _ w address)
  read_stored w address b := by
    funext w' address'
    exact congrArg w'.truncate (get_record b.system _ w' address')
  waitTime_stored _ _ _ _ := rfl

/-- The first instruction of an interrupt's handler is the word stored at its vector. -/
theorem prefetch_invisible_interrupted :
    ((fullCore .arm9).step interruptEntered).2 =
      ((fullCore .arm9).execute false (interruptEntered.system.get .word 0x18)
        ((fullCore .arm9).fetched interruptEntered)).2.toBoard := by
  have hstale : interruptEntered.cpu.pipelineValid = false := by decide
  have hrun : (fullCore .arm9).Undisturbed stored interruptEntered := by
    refine .step (.start beforeInterrupt 0x103) (by decide) fun hvalid => ?_
    have hvalid' : interruptEntered.cpu.pipelineValid = true := hvalid
    rw [hstale] at hvalid'
    cases hvalid'
  obtain ⟨-, hopcode, -⟩ := Core.prefetch_invisible (fullCore_backed .arm9) hrun
  have hthumb : interruptEntered.cpu.isFlag .thumb = false := by decide
  have hnext : interruptEntered.cpu.nextInstruction = 0x18 := by decide
  have hstep := hopcode (by decide) (by decide)
  simp only [hthumb, hnext, Bool.false_eq_true, if_false, stored_word] at hstep
  exact hstep

end FlatMemory
end Handheld
