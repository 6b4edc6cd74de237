import Handheld.Proofs.Cpu.BlockTransfer

/-!
# Instructions that load and store lists of registers

What such an instruction of either set leaves behind, for every list, every way of addressing and
every mode, on a processor of either version whose bus ends in a flat memory.
-/

namespace Handheld.Core

open Word Address MachineM

/-! ## Opcodes -/

variable {σ : Type}

open Thumb in
/-- The block transfer that an opcode stands for: its base register, its list, and how it moves
them. -/
def blockTransfer? (core : Core σ) (thumb : Bool) (inst : UInt32) :
    Option (Register × UInt16 × BlockTransfer) :=
  if thumb then
    match Thumb.decode core.processor.isV5 inst.toUInt16 with
    | .push list lr =>
      some (Register.sp, list.toUInt16 ||| (if lr then 0x4000 else 0), pushing)
    | .pop list pc =>
      some (Register.sp, list.toUInt16 ||| (if pc then 0x8000 else 0), ascending true)
    | .storeBlock b list => some (b.wide, list.toUInt16, ascending false)
    | .loadBlock b list => some (b.wide, list.toUInt16, ascending true)
    | _ => none
  else
    match Arm.decode core.processor.isV5 inst with
    | .blockTransfer n list statusBit mode =>
      some (n, list, { load := mode.load, pre := mode.pre, up := mode.up,
                       writeback := mode.writeback, statusBit })
    | _ => none

/-- An opcode that stands for a block transfer is executed as one, unless it is skipped. -/
theorem execute_block {core : Core σ} {thumb : Bool} {inst : UInt32} {n : Register}
    {set : UInt16} {t : BlockTransfer} (hblock : core.blockTransfer? thumb inst = some (n, set, t))
    (m : Machine σ) :
    core.execute thumb inst m =
      if thumb || m.cpu.holds (Arm.condition inst) then
        core.blockTransfer n set t (core.noted thumb inst m)
      else ((), core.noted thumb inst m) := by
  cases thumb with
  | true =>
    rw [core.execute_short]
    simp only [blockTransfer?, ↓reduceIte] at hblock
    split at hblock <;> cases hblock
    all_goals
      next hdecode =>
        rw [hdecode]
        rfl
  | false =>
    simp only [blockTransfer?, Bool.false_eq_true, ↓reduceIte] at hblock
    split at hblock <;> cases hblock
    next hdecode =>
      -- The instructions without a condition are no block transfers.
      have hconditional : (core.processor.isV5 && Arm.condition inst == 15) = false := by
        refine Bool.eq_false_iff.mpr fun hunconditional => ?_
        rw [Arm.decode, if_pos hunconditional] at hdecode
        unfold Arm.decodeUnconditional at hdecode
        split_ifs at hdecode
      rw [execute_long, hconditional, Bool.false_or, hdecode]
      rfl

/-- An opcode that stands for a block transfer, and is not skipped, is executed as one; apart from
that it is only noted in the log. -/
theorem execute_of_blockTransfer {core : Core σ} {thumb : Bool} {inst : UInt32} {n : Register}
    {set : UInt16} {t : BlockTransfer} (hblock : core.blockTransfer? thumb inst = some (n, set, t))
    {m : Machine σ} (hholds : thumb = true ∨ m.cpu.holds (Arm.condition inst) = true) :
    ∃ log, core.execute thumb inst m = core.blockTransfer n set t { m with log } := by
  refine ⟨(core.noted thumb inst m).log, ?_⟩
  rw [execute_block hblock, if_pos (by simpa using hholds)]
  rfl

section
variable {core : Core FlatMemory} {thumb : Bool} {inst : UInt32} {n : Register} {set : UInt16}
  {t : BlockTransfer}

theorem lowest_eq (t : BlockTransfer) (base : UInt32) (count : Nat) :
    t.lowest base count =
      if t.up then (if t.pre then base + 4 else base)
      else (if t.pre then base - 4 * UInt32.ofNat count
        else base - 4 * UInt32.ofNat count + 4) := by
  unfold BlockTransfer.lowest
  cases t.pre <;> cases t.up <;> rfl

/-- The word that a store has for a register. -/
theorem storedValue_of_store (hstore : t.load = false) (n : Register) (list : List Register)
    (newBase : UInt32) (r : Register) (s : CpuState) :
    core.storedValue n list.head? newBase (t.userBank list) r s =
      if core.processor.isV5 = false ∧ r = n ∧ list.head? ≠ some n then newBase
      else if r = Register.pc then s.pc + 4
      else if t.statusBit then s.regInMode .user r
      else s.reg r := by
  have hbank : t.userBank list = t.statusBit := by
    unfold BlockTransfer.userBank
    rw [hstore, Bool.false_and, Bool.not_false, Bool.and_true]
  unfold storedValue
  rw [hbank]
  refine if_congr ?_ rfl (if_ctx_congr Iff.rfl (fun hr => ?_) fun _ => rfl)
  · by_cases hr : r = n
    · subst hr
      simp [and_comm]
    · simp [hr]
  · rw [CpuState.lateReg, if_pos hr]

/-- **A block store.** The words of a block and no others are written, the lowest register to the
lowest address, and the base alone is changed. The program counter is stored one word further
on; on ARMv4 a base that is not the first of the list is stored as it would be after the
transfer, whether it is then changed or not, and whatever bank the others come from. -/
theorem execute_blockStore (hcore : core.OnFlatMemory)
    (hblock : core.blockTransfer? thumb inst = some (n, set, t)) (hstore : t.load = false)
    (m : Machine FlatMemory) (hholds : thumb = true ∨ m.cpu.holds (Arm.condition inst) = true)
    (hlist : Register.ofSet set ≠ []) :
    let s := m.cpu
    let after := (core.execute thumb inst m).2
    let list := Register.ofSet set
    let size := 4 * UInt32.ofNat list.length
    let base := s.reg n
    let newBase := if t.up then base + size else base - size
    let lowest :=
      if t.up then (if t.pre then base + 4 else base)
      else (if t.pre then base - size else base - size + 4)
    let value := fun r : Register =>
      if core.processor.isV5 = false ∧ r = n ∧ list.head? ≠ some n then newBase
      else if r = Register.pc then s.pc + 4
      else if t.statusBit then s.regInMode .user r
      else s.reg r
    (∀ (k : Nat) (hk : k < list.length),
      after.system.get .word (lowest + 4 * UInt32.ofNat k) = value list[k]) ∧
    (∀ address, (∀ k < list.length, FlatMemory.offset .word address ≠
        FlatMemory.offset .word (lowest + 4 * UInt32.ofNat k)) →
      after.system.get .word address = m.system.get .word address) ∧
    after.system.trace = ((list.map value).mapIdx fun k x =>
      BusRequest.write .word (lowest + 4 * UInt32.ofNat k) x).reverse ++ m.system.trace ∧
    after.cpu =
      { if t.writeback then s.setReg n newBase else s with
        accessType := Access.nonSequential } := by
  intro s after list size base newBase lowest value
  obtain ⟨log, hexecute⟩ := execute_of_blockTransfer hblock hholds
  let noted : Machine FlatMemory := { m with log }
  have hlowest : t.lowest base list.length = lowest := lowest_eq t base list.length
  have hmoves : t.movesBase core.processor.isV5 n list = t.writeback := by
    unfold BlockTransfer.movesBase
    rw [hstore, Bool.not_false, Bool.true_or, Bool.true_or, Bool.and_true]
  have hvalues : (list.map fun r =>
      core.storedValue n list.head? newBase (t.userBank list) r noted.cpu) = list.map value :=
    List.map_congr_left fun r _ => storedValue_of_store hstore n list newBase r s
  have hafter : after.toBoard =
      { cpu := settled t.writeback n newBase s
        system := m.system.storeWords lowest (list.map value)
        log := log } := by
    have hstored := hcore.storeBlock (core.storedValue n list.head? newBase (t.userBank list)) list
      lowest Access.nonSequential noted
    rw [hvalues] at hstored
    show (core.execute thumb inst m).2.toBoard = _
    rw [hexecute, core.blockTransfer_of_store hlist hstore]
    show (core.finishTransfer n newBase _ false t.statusBit none
      (core.storeBlock (core.storedValue n list.head? newBase (t.userBank list)) list
        (t.lowest base list.length) Access.nonSequential noted).2).2.toBoard = _
    rw [hcore.finishTransfer, hmoves, hlowest]
    exact congrArg (fun b : Board FlatMemory =>
      { b with cpu := settled t.writeback n newBase b.cpu }) hstored
  have hsystem : after.system = m.system.storeWords lowest (list.map value) :=
    congrArg Board.system hafter
  have hlength : (list.map value).length = list.length := List.length_map _
  -- A list has at most sixteen registers, so no two of its words share an offset.
  refine ⟨?_, ?_, ?_, congrArg Board.cpu hafter⟩
  · intro k hk
    have hfits : list.length ≤ 16 := Register.length_ofSet_le set
    rw [hsystem, FlatMemory.get_storeWords _ _ _ (by omega) (by omega), List.getElem_map]
  · intro address hapart
    rw [hsystem]
    refine FlatMemory.get_storeWords_of_apart _ _ _ _ fun k hk => hapart k ?_
    rwa [hlength] at hk
  · rw [hsystem, FlatMemory.trace_storeWords]

/-- A companion processor about to store r0 and r1 from the address in r1 on, which it leaves
where it is. -/
def beforeStore : Machine FlatMemory where
  cpu := (({} : CpuState).setReg 0 7).setReg 1 0x200
  system := {}
  log := {}

/-- The base is stored as if it had moved, but it has not. -/
theorem execute_blockStore_unmoved :
    let after := ((FlatMemory.minimalCore .arm7).execute false 0xE8810003 beforeStore).2
    after.system.get .word 0x200 = 7 ∧ after.system.get .word 0x204 = 0x208 ∧
      after.cpu.reg 1 = 0x200 := by
  have hblock : (FlatMemory.minimalCore .arm7).blockTransfer? false 0xE8810003 =
      some (1, 3, { load := false, pre := false, up := true, writeback := false,
                    statusBit := false }) := by decide
  obtain ⟨hwords, -, -, hcpu⟩ := execute_blockStore (minimalCore_onFlatMemory .arm7) hblock rfl
    beforeStore (by decide) (by decide)
  refine ⟨(hwords 0 (by decide)).trans (by decide), (hwords 1 (by decide)).trans (by decide), ?_⟩
  rw [hcpu]
  rfl

/-- Whether the base is written behind a load: not if the load itself leaves something in it that
is to stay. -/
theorem movesBase_of_load (hload : t.load = true) (isV5 : Bool) {list : List Register}
    (hlist : list ≠ []) :
    t.movesBase isV5 n list = true ↔
      t.writeback = true ∧
        ¬ (n ∈ list ∧ (isV5 = false ∨ (1 < list.length ∧ list.getLast? = some n))) := by
  have hlength : 0 < list.length := List.length_pos_iff.mpr hlist
  have hone : ¬ list.length = 1 ↔ 1 < list.length := by omega
  unfold BlockTransfer.movesBase
  simp only [hload, Bool.not_true, Bool.false_or, Bool.and_eq_true, Bool.or_eq_true,
    Bool.not_eq_true', List.contains_eq_mem, decide_eq_false_iff_not, beq_iff_eq, bne_iff_ne]
  rw [← hone]
  cases isV5 <;> simp
  tauto

/-- What a block load leaves behind, in parts: the registers of the list have been loaded, then the
base may have been moved, then a loaded program counter was followed. -/
theorem OnFlatMemory.execute_load (hcore : core.OnFlatMemory)
    (hblock : core.blockTransfer? thumb inst = some (n, set, t)) (hload : t.load = true)
    (m : Machine FlatMemory) (hholds : thumb = true ∨ m.cpu.holds (Arm.condition inst) = true)
    (hlist : Register.ofSet set ≠ []) :
    let after := (core.execute thumb inst m).2
    let list := Register.ofSet set
    let base := m.cpu.reg n
    let lowest := t.lowest base list.length
    let word := wordFor m.system lowest list
    after.system = m.system.readWords lowest list.length ∧
    ∃ loaded : CpuState,
      m.cpu.Loaded (bankOf (t.userBank list) m.cpu) list word loaded ∧
      after.cpu = followed core.processor.isV5 t.statusBit
        (if Register.pc ∈ list then some (word Register.pc) else none)
        (settled (t.movesBase core.processor.isV5 n list) n (t.newBase base list.length)
          loaded) := by
  intro after list base lowest word
  obtain ⟨log, hexecute⟩ := execute_of_blockTransfer hblock hholds
  let noted : Machine FlatMemory := { m with log }
  let result := core.loadBlock (t.userBank list) list lowest Access.nonSequential noted
  obtain ⟨htarget, hloaded, hmemory⟩ := hcore.loadBlock (t.userBank list) list
    (Register.nodup_ofSet set) lowest Access.nonSequential noted
  have hafter : after.toBoard =
      { result.2.toBoard with
        cpu := followed core.processor.isV5 t.statusBit result.1
          (settled (t.movesBase core.processor.isV5 n list) n (t.newBase base list.length)
            result.2.cpu) } := by
    show (core.execute thumb inst m).2.toBoard = _
    rw [hexecute, core.blockTransfer_of_load hlist hload, hcore.finishTransfer]
  refine ⟨(congrArg Board.system hafter).trans hmemory, result.2.cpu, hloaded, ?_⟩
  rw [← htarget]
  exact congrArg Board.cpu hafter

/-- **A block load.** The registers of the list receive the words of the block, the lowest
register the lowest word, in the view of the current mode or, with the status bit and without the
program counter, of user mode. The base ends behind the block, unless the load left something in
it that stays. A loaded program counter is jumped to, in the instruction set that the restored
status chooses or, on ARMv5, its own lowest bit. Nothing else changes. -/
theorem execute_blockLoad (hcore : core.OnFlatMemory)
    (hblock : core.blockTransfer? thumb inst = some (n, set, t)) (hload : t.load = true)
    (m : Machine FlatMemory) (hholds : thumb = true ∨ m.cpu.holds (Arm.condition inst) = true)
    (hlist : Register.ofSet set ≠ []) (hn : n ≠ Register.pc) :
    let s := m.cpu
    let after := (core.execute thumb inst m).2
    let list := Register.ofSet set
    let size := 4 * UInt32.ofNat list.length
    let base := s.reg n
    let newBase := if t.up then base + size else base - size
    let lowest :=
      if t.up then (if t.pre then base + 4 else base)
      else (if t.pre then base - size else base - size + 4)
    let word := fun r : Register =>
      m.system.get .word (lowest + 4 * UInt32.ofNat (list.idxOf r))
    let bank := if t.statusBit = true ∧ Register.pc ∉ list then Mode.user else s.mode
    let keepsLoaded :=
      n ∈ list ∧ (core.processor.isV5 = false ∨ (1 < list.length ∧ list.getLast? = some n))
    (∀ (mode : Mode) (r : Register), r ≠ Register.pc → after.cpu.regInMode mode r =
      if t.writeback = true ∧ ¬ keepsLoaded ∧ r.physical mode = n.physical s.mode then newBase
      else if r ∈ list ∧ r.physical mode = r.physical bank then word r
      else s.regInMode mode r) ∧
    after.cpu.spsr = s.spsr ∧
    after.system.bytes = m.system.bytes ∧
    (Register.pc ∉ list → after.cpu.pc = s.pc ∧ after.cpu.cpsr = s.cpsr) ∧
    (Register.pc ∈ list →
      after.cpu.cpsr =
        (if t.statusBit then (if s.mode.hasSavedStatus then s.spsr[s.mode.bank] else s.cpsr)
        else if core.processor.isV5 then
          setBit s.cpsr Flag.thumb.position (isBit (word Register.pc) 0)
        else s.cpsr) ∧
      after.cpu.nextInstruction =
        alignDown (word Register.pc) after.cpu.instructionSize) := by
  intro s after list size base newBase lowest word bank keepsLoaded
  let isV5 := core.processor.isV5
  let moves := t.movesBase isV5 n list
  let target := if Register.pc ∈ list then some (word Register.pc) else none
  obtain ⟨hmemory, loaded, hloaded, hcpu⟩ := hcore.execute_load hblock hload m hholds hlist
  rw [lowest_eq] at hloaded hcpu
  change after.cpu = followed isV5 t.statusBit target (settled moves n newBase loaded) at hcpu
  have hbank : bankOf (t.userBank list) s = bank := by
    unfold bankOf BlockTransfer.userBank
    rw [hload]
    refine if_congr ?_ rfl rfl
    simp
  change s.Loaded (bankOf (t.userBank list) s) list word loaded at hloaded
  rw [hbank] at hloaded
  have hcpsr := (cpsr_settled moves n newBase loaded).trans hloaded.cpsr
  have hspsr := (spsr_settled moves n newBase loaded).trans hloaded.spsr
  have hcontents := physicalValue_settled moves n newBase loaded
  rw [hloaded.mode] at hcontents
  refine ⟨?_, ?_, ?_, ?_, ?_⟩
  · intro mode r hr
    have hpc : r.physical mode ≠ .pc := by
      intro h
      have hnumber := congrArg PhysicalRegister.number h
      rw [Register.number_physical] at hnumber
      exact hr hnumber
    rw [CpuState.regInMode_eq_view, CpuState.regInMode_eq_view]
    show after.cpu.physicalValue (r.physical mode) = _
    rw [hcpu, physicalValue_followed _ _ _ _ hpc, hcontents, hloaded.contents,
      Register.number_physical]
    refine if_congr ?_ rfl (if_congr ?_ rfl rfl)
    · rw [movesBase_of_load hload isV5 hlist, and_assoc]
    · rw [eq_comm (a := r.physical bank)]
      tauto
  · rw [hcpu, spsr_followed, hspsr]
  · rw [hmemory, FlatMemory.bytes_readWords]
  · intro hpc
    have hnone : target = none := if_neg hpc
    rw [hcpu, hnone]
    refine ⟨?_, hcpsr⟩
    show (settled moves n newBase loaded).physicalValue .pc = s.physicalValue .pc
    -- The base is another register, so moving it leaves the program counter alone.
    have hne : PhysicalRegister.pc ≠ n.physical s.mode := by
      intro h
      have hnumber := congrArg PhysicalRegister.number h
      rw [Register.number_physical] at hnumber
      exact hn hnumber.symm
    rw [hcontents, if_neg fun h => hne h.2, hloaded.contents, if_neg fun h => h.2.1 rfl]
  · intro hpc
    have hsome : target = some (word Register.pc) := if_pos hpc
    rw [hcpu, hsome]
    refine ⟨?_, nextInstruction_startAt _ _⟩
    rw [cpsr_followed, savedStatus_congr hcpsr hspsr, hcpsr]
    rfl

end

/-- A main processor in interrupt mode about to return to a short instruction of user mode, with
r0 as stack pointer. -/
def beforeReturn : Machine FlatMemory where
  cpu := (({ cpsr := 0x12 } : CpuState).setSavedStatus 0x30).setReg 0 0x100
  system := {}
  log := {}

theorem execute_blockLoad_return :
    let after := ((FlatMemory.minimalCore .arm9).execute false 0xE8F08002 beforeReturn).2
    after.cpu.cpsr = 0x30 ∧ after.cpu.regInMode .user 0 = 0x108 ∧
      after.cpu.regInMode .user 1 = beforeReturn.system.get .word 0x100 ∧
      after.cpu.nextInstruction = alignDown (beforeReturn.system.get .word 0x104) 2 := by
  have hblock : (FlatMemory.minimalCore .arm9).blockTransfer? false 0xE8F08002 =
      some (0, 0x8002, { load := true, pre := false, up := true, writeback := true,
                         statusBit := true }) := by decide
  obtain ⟨hregisters, -, -, -, hpc⟩ := execute_blockLoad (minimalCore_onFlatMemory .arm9) hblock
    rfl beforeReturn (by decide) (by decide) (by decide)
  obtain ⟨hcpsr, htarget⟩ := hpc (by decide)
  refine ⟨hcpsr, (hregisters .user 0 (by decide)).trans (if_pos (by decide)),
    (hregisters .user 1 (by decide)).trans ?_, ?_⟩
  · rw [if_neg (by decide), if_pos (by decide)]
    rfl
  · rw [htarget, CpuState.instructionSize, CpuState.isFlag, hcpsr]
    rfl

end Handheld.Core
