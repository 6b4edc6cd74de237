import Handheld.Proofs.Cpu.BlockInstructions

/-!
# Stacks of registers

A block store and the block load of the opposite direction and order form a stack: what the one
puts away the other takes back. The four pairs go through the same words, since the store's
writeback leaves the base where the load starts from.
-/

namespace Handheld

open Word Address

namespace BlockTransfer

/-- The transfer that takes back what this one puts away, or the other way round. -/
def reversed (t : BlockTransfer) : BlockTransfer :=
  { t with load := !t.load, pre := !t.pre, up := !t.up }

/-- The transfer back leaves the base where the first one started. -/
theorem newBase_reversed (t : BlockTransfer) (base : UInt32) (count : Nat) :
    t.reversed.newBase (t.newBase base count) count = base := by
  unfold newBase Address.move reversed
  cases t.up with
  | true => exact UInt32.add_sub_cancel _ _
  | false => exact UInt32.sub_add_cancel _ _

/-- The transfer back goes through the same words. -/
theorem lowest_reversed (t : BlockTransfer) (base : UInt32) (count : Nat) :
    t.reversed.lowest (t.newBase base count) count = t.lowest base count := by
  have hup : base + 4 * UInt32.ofNat count - 4 * UInt32.ofNat count = base :=
    UInt32.add_sub_cancel _ _
  unfold newBase Address.move reversed lowest
  cases t.pre <;> cases t.up <;> simp [hup]

theorem userBank_reversed {t : BlockTransfer} {list : List Register}
    (hpc : Register.pc ∉ list) : t.reversed.userBank list = t.userBank list := by
  simp [userBank, reversed, hpc]

/-- A base that is not in the list is moved whenever it is to be. -/
theorem movesBase_of_not_mem (t : BlockTransfer) (isV5 : Bool) {n : Register}
    {list : List Register} (hn : n ∉ list) : t.movesBase isV5 n list = t.writeback := by
  simp [movesBase, hn]

end BlockTransfer

namespace Core

variable {core : Core FlatMemory} {thumb thumb' : Bool} {inst inst' : UInt32} {n : Register}
  {set : UInt16} {t : BlockTransfer}

/-! ## Putting away -/

/-- What a block store leaves behind, in parts: the words of the list in the memory, then the base
may have been moved. -/
theorem OnFlatMemory.execute_store (hcore : core.OnFlatMemory)
    (hblock : core.blockTransfer? thumb inst = some (n, set, t)) (hstore : t.load = false)
    (m : Machine FlatMemory) (hholds : thumb = true ∨ m.cpu.holds (Arm.condition inst) = true)
    (hlist : Register.ofSet set ≠ []) :
    let stored := (core.execute thumb inst m).2
    let list := Register.ofSet set
    let newBase := t.newBase (m.cpu.reg n) list.length
    stored.system = m.system.storeWords (t.lowest (m.cpu.reg n) list.length)
      (list.map fun r => core.storedValue n list.head? newBase (t.userBank list) r m.cpu) ∧
    stored.cpu = settled (t.movesBase core.processor.isV5 n list) n newBase m.cpu := by
  intro stored list newBase
  obtain ⟨log, hexecute⟩ := execute_of_blockTransfer hblock hholds
  let value := core.storedValue n list.head? newBase (t.userBank list)
  let noted : Machine FlatMemory := { m with log }
  have hwords := hcore.storeBlock value list (t.lowest (m.cpu.reg n) list.length)
    Access.nonSequential noted
  have hstored : stored.toBoard =
      { cpu := settled (t.movesBase core.processor.isV5 n list) n newBase m.cpu
        system := m.system.storeWords (t.lowest (m.cpu.reg n) list.length)
          (list.map fun r => value r m.cpu)
        log := log } := by
    show (core.execute thumb inst m).2.toBoard = _
    rw [hexecute, core.blockTransfer_of_store hlist hstore, hcore.finishTransfer]
    exact congrArg (fun b : Board FlatMemory => { b with
      cpu := settled (t.movesBase core.processor.isV5 n list) n newBase b.cpu }) hwords
  exact ⟨congrArg Board.system hstored, congrArg Board.cpu hstored⟩

/-- The words of a list depend on the bytes of the memory alone. -/
theorem wordFor_congr {memory memory' : FlatMemory} (h : memory.bytes = memory'.bytes)
    (address : UInt32) (list : List Register) (r : Register) :
    wordFor memory address list r = wordFor memory' address list r := by
  unfold wordFor FlatMemory.get
  rw [h]

/-- Each word of a list that was stored is the register's, in the bank that the transfer reaches,
if neither the base nor the program counter is in the list. -/
theorem wordFor_stored (memory : FlatMemory) (address newBase : UInt32) (s : CpuState)
    (userBank : Bool) {list : List Register} (hlength : list.length ≤ 16) (hn : n ∉ list)
    (hpc : Register.pc ∉ list) {r : Register} (hr : r ∈ list) :
    wordFor (memory.storeWords address
        (list.map fun r => core.storedValue n list.head? newBase userBank r s)) address list r =
      s.physicalValue (r.physical (bankOf userBank s)) := by
  have hindex : list.idxOf r < list.length := List.idxOf_lt_length_of_mem hr
  have hbase : r ≠ n := ne_of_mem_of_not_mem hr hn
  have hother : r ≠ Register.pc := ne_of_mem_of_not_mem hr hpc
  unfold wordFor
  rw [FlatMemory.get_storeWords _ _ _ (by rw [List.length_map]; omega)
    (by rwa [List.length_map]), List.getElem_map, List.getElem_idxOf]
  unfold storedValue bankOf
  rw [if_neg (by simp [hbase]), if_neg hother]
  cases userBank with
  | true => exact s.regInMode_eq_view .user r
  | false => exact (s.physicalValue_eq_reg r).symm

/-! ## Taking back -/

/-- What a block load with writeback leaves behind, if neither the base nor the program counter is
in the list: the base behind the block, the registers of the list as the memory has them, and all
else as it was. -/
theorem OnFlatMemory.execute_load_apart (hcore : core.OnFlatMemory)
    (hblock : core.blockTransfer? thumb inst = some (n, set, t)) (hload : t.load = true)
    (hwriteback : t.writeback = true) (m : Machine FlatMemory)
    (hholds : thumb = true ∨ m.cpu.holds (Arm.condition inst) = true)
    (hlist : Register.ofSet set ≠ []) (hpc : Register.pc ∉ Register.ofSet set)
    (hn : n ∉ Register.ofSet set) :
    let loaded := (core.execute thumb inst m).2
    let list := Register.ofSet set
    let base := m.cpu.reg n
    (∀ p : PhysicalRegister, loaded.cpu.physicalValue p =
      if p = n.physical m.cpu.mode then t.newBase base list.length
      else if p.number ∈ list ∧ p.number.physical (bankOf (t.userBank list) m.cpu) = p then
        wordFor m.system (t.lowest base list.length) list p.number
      else m.cpu.physicalValue p) ∧
    loaded.cpu.cpsr = m.cpu.cpsr ∧ loaded.cpu.spsr = m.cpu.spsr ∧
    loaded.system.bytes = m.system.bytes := by
  intro loaded list base
  obtain ⟨hread, filled, hfilled, hcpu⟩ := hcore.execute_load hblock hload m hholds hlist
  rw [t.movesBase_of_not_mem _ hn, hwriteback, if_neg hpc] at hcpu
  change loaded.cpu = settled true n (t.newBase base list.length) filled at hcpu
  refine ⟨fun p => ?_, ?_, ?_, ?_⟩
  · have hlisted : p.number ∈ list ∧ p.number ≠ Register.pc ∧
          p.number.physical (bankOf (t.userBank list) m.cpu) = p ↔
        p.number ∈ list ∧ p.number.physical (bankOf (t.userBank list) m.cpu) = p :=
      and_congr_right fun hp => and_iff_right (ne_of_mem_of_not_mem hp hpc)
    rw [hcpu, physicalValue_settled, hfilled.contents, hfilled.mode]
    exact if_congr (and_iff_right rfl) rfl (if_congr hlisted rfl rfl)
  · rw [hcpu, cpsr_settled, hfilled.cpsr]
  · rw [hcpu, spsr_settled, hfilled.spsr]
  · show loaded.system.bytes = _
    rw [hread, FlatMemory.bytes_readWords]

/-- **What a block store puts away the matching block load takes back.** A list of registers
without the program counter and the base is stored, with writeback, in either direction and order,
on a processor of either version and in any mode, for user mode or not. Later, when the mode, the
base and the memory are as the store left them and all else may have changed, the list is loaded
in the opposite direction and order, with writeback. Then every register of the list has its old
value in the bank that was put away, the base has its old value, and all else is as it was before
the load. -/
theorem blockLoad_takes_back (hcore : core.OnFlatMemory)
    (hstoring : core.blockTransfer? thumb inst = some (n, set, t))
    (hloading : core.blockTransfer? thumb' inst' = some (n, set, t.reversed))
    (hstore : t.load = false) (hwriteback : t.writeback = true)
    (hlist : Register.ofSet set ≠ []) (hpc : Register.pc ∉ Register.ofSet set)
    (hn : n ∉ Register.ofSet set) (m later : Machine FlatMemory)
    (hholds : thumb = true ∨ m.cpu.holds (Arm.condition inst) = true)
    (hholds' : thumb' = true ∨ later.cpu.holds (Arm.condition inst') = true) :
    let stored := (core.execute thumb inst m).2
    let loaded := (core.execute thumb' inst' later).2
    let list := Register.ofSet set
    let bank := if t.statusBit then Mode.user else m.cpu.mode
    later.cpu.mode = stored.cpu.mode → later.cpu.reg n = stored.cpu.reg n →
    later.system.bytes = stored.system.bytes →
    (∀ r ∈ list, loaded.cpu.regInMode bank r = m.cpu.regInMode bank r) ∧
    loaded.cpu.reg n = m.cpu.reg n ∧
    (∀ (mode : Mode) (r : Register), (∀ r' ∈ list, r.physical mode ≠ r'.physical bank) →
      r.physical mode ≠ n.physical m.cpu.mode →
        loaded.cpu.regInMode mode r = later.cpu.regInMode mode r) ∧
    loaded.cpu.cpsr = later.cpu.cpsr ∧ loaded.cpu.spsr = later.cpu.spsr ∧
    loaded.system.bytes = later.system.bytes := by
  intro stored loaded list bank hmode hbase hbytes
  let base := m.cpu.reg n
  let newBase := t.newBase base list.length
  obtain ⟨hwords, hsettled⟩ := hcore.execute_store hstoring hstore m hholds hlist
  rw [t.movesBase_of_not_mem _ hn, hwriteback] at hsettled
  change stored.cpu = settled true n newBase m.cpu at hsettled
  have hmode' : later.cpu.mode = m.cpu.mode := by
    rw [hmode, hsettled]
    rfl
  have hbase' : later.cpu.reg n = newBase := by
    rw [hbase, hsettled]
    show (m.cpu.setReg n newBase).reg n = newBase
    rw [CpuState.reg_setReg, if_pos rfl]
  have hbank : bankOf (t.userBank list) m.cpu = bank := by
    simp [bankOf, bank, BlockTransfer.userBank, hstore]
  have hbank' : bankOf (t.userBank list) later.cpu = bank := by
    unfold bankOf at hbank ⊢
    rwa [hmode']
  have hload : t.reversed.load = true := by simp [BlockTransfer.reversed, hstore]
  obtain ⟨hcontents, hcpsr, hspsr, hmemory⟩ :=
    hcore.execute_load_apart hloading hload hwriteback later hholds' hlist hpc hn
  -- The load starts where the store did, and so it finds the words that were stored.
  rw [hbase', BlockTransfer.newBase_reversed, BlockTransfer.lowest_reversed,
    BlockTransfer.userBank_reversed hpc, hbank', hmode'] at hcontents
  change ∀ p, loaded.cpu.physicalValue p = _ at hcontents
  have hview : ∀ (s : CpuState) (mode : Mode) (r : Register),
      s.regInMode mode r = s.physicalValue (r.physical mode) := CpuState.regInMode_eq_view
  refine ⟨?_, ?_, ?_, hcpsr, hspsr, hmemory⟩
  · intro r hr
    have hapart : r.physical bank ≠ n.physical m.cpu.mode :=
      fun heq => hn (Register.eq_of_physical heq ▸ hr)
    rw [hview, hview, hcontents, if_neg hapart, Register.number_physical, if_pos ⟨hr, rfl⟩,
      wordFor_congr hbytes, hwords, ← hbank]
    exact wordFor_stored m.system _ newBase m.cpu (t.userBank list)
      (Register.length_ofSet_le set) hn hpc hr
  · have hsame : loaded.cpu.mode = m.cpu.mode := (congrArg Mode.ofStatus hcpsr).trans hmode'
    rw [← CpuState.physicalValue_eq_reg, hsame, hcontents, if_pos rfl]
  · intro mode r hout hother
    rw [hview, hview, hcontents, if_neg hother, if_neg]
    rintro ⟨hmem, heq⟩
    exact hout _ hmem heq.symm

/-- An auxiliary processor in interrupt mode about to put away registers of user mode, with r1 as
stack pointer close to the lower end of the address space. -/
def beforePush : Machine FlatMemory where
  cpu := ((({ cpsr := 0x12 } : CpuState).setReg 0 5).setReg 1 8).setRegInMode .user 13 7
  system := {}
  log := {}

/-- The registers of user mode overwritten. -/
def spoil (m : Machine FlatMemory) : Machine FlatMemory :=
  { m with cpu := (m.cpu.setRegInMode .user 0 1).setRegInMode .user 13 2 }

theorem cpsr_spoil (m : Machine FlatMemory) : (spoil m).cpu.cpsr = m.cpu.cpsr :=
  ((m.cpu.setRegInMode .user 0 1).status_setRegInMode .user 13 2).1.trans
    (m.cpu.status_setRegInMode .user 0 1).1

theorem base_spoil (m : Machine FlatMemory) : (spoil m).cpu.reg 1 = m.cpu.reg 1 := by
  have hmode : (spoil m).cpu.mode = m.cpu.mode := congrArg Mode.ofStatus (cpsr_spoil m)
  rw [← CpuState.physicalValue_eq_reg, ← CpuState.physicalValue_eq_reg, hmode]
  show ((m.cpu.setRegInMode .user 0 1).setRegInMode .user 13 2).physicalValue (.low 1) =
    m.cpu.physicalValue (.low 1)
  rw [CpuState.physicalValue_setRegInMode, CpuState.physicalValue_setRegInMode]
  rfl

theorem blockLoad_takes_back_user :
    let stored := ((FlatMemory.minimalCore .arm7).execute false 0xE9612001 beforePush).2
    let loaded := ((FlatMemory.minimalCore .arm7).execute false 0xE8F12001 (spoil stored)).2
    loaded.cpu.regInMode .user 0 = 5 ∧ loaded.cpu.regInMode .user 13 = 7 ∧
      loaded.cpu.reg 1 = 8 := by
  let t : BlockTransfer :=
    { load := false, pre := true, up := false, writeback := true, statusBit := true }
  have hstoring : (FlatMemory.minimalCore .arm7).blockTransfer? false 0xE9612001 =
      some (1, 0x2001, t) := by decide
  have hloading : (FlatMemory.minimalCore .arm7).blockTransfer? false 0xE8F12001 =
      some (1, 0x2001, t.reversed) := by decide
  intro stored loaded
  obtain ⟨hlisted, hbase, -⟩ := blockLoad_takes_back (minimalCore_onFlatMemory .arm7) hstoring
    hloading rfl rfl (by decide) (by decide) (by decide) beforePush (spoil stored) (by decide)
    (.inr (spoil stored).cpu.holds_always) (congrArg Mode.ofStatus (cpsr_spoil stored))
    (base_spoil stored) rfl
  exact ⟨hlisted 0 (by decide), hlisted 13 (by decide), hbase⟩

end Core
end Handheld
