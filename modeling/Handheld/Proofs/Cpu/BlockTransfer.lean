import Handheld.Proofs.Cpu.Confinement
import Handheld.Proofs.FlatMemory

/-!
# Block transfers in parts, on flat memory

The parts of a block transfer, for a core whose bus ends in a flat memory: what storing a list of
registers leaves in the memory, what loading one leaves in the register file, and what happens to
the processor behind the transfers.

* `FlatMemory.storeWords` is the memory after a block of words was stored;
* `CpuState.Loaded` is the register file after a list of registers was loaded;
* `Core.followed` is the processor's state after a loaded program counter was followed.
-/

namespace Handheld

open Word Address

/-! ## Blocks of words -/

theorem add_word_index (address : UInt32) (k : Nat) :
    address + 4 + 4 * UInt32.ofNat k = address + 4 * UInt32.ofNat (k + 1) := by
  rw [UInt32.ofNat_add, UInt32.mul_add, UInt32.add_assoc, UInt32.add_comm 4]
  rfl

namespace FlatMemory

/-- The memory after words were stored to ascending addresses. -/
def storeWords (m : FlatMemory) (address : UInt32) : List UInt32 → FlatMemory
  | [] => m
  | value :: values =>
    ((m.record (.write .word address value)).set .word address value).storeWords (address + 4)
      values

/-- The memory after words were read from ascending addresses. -/
def readWords (m : FlatMemory) (address : UInt32) : Nat → FlatMemory
  | 0 => m
  | count + 1 => (m.record (.read .word address)).readWords (address + 4) count

theorem bytes_readWords (m : FlatMemory) (address : UInt32) (count : Nat) :
    (m.readWords address count).bytes = m.bytes := by
  induction count generalizing m address with
  | zero => rfl
  | succ count ih =>
    rw [readWords, ih]
    rfl

/-- Words apart from a block stay as they are when the block is stored. -/
theorem get_storeWords_of_apart (m : FlatMemory) (address other : UInt32) (values : List UInt32)
    (h : ∀ k < values.length,
      offset .word other ≠ offset .word (address + 4 * UInt32.ofNat k)) :
    (m.storeWords address values).get .word other = m.get .word other := by
  induction values generalizing m address with
  | nil => rfl
  | cons value values ih =>
    have hfirst : offset .word other ≠ offset .word address := by
      have hzero := h 0 (by simp)
      rwa [show address + 4 * UInt32.ofNat 0 = address from UInt32.add_zero address] at hzero
    rw [storeWords, ih, get_set_word, if_neg hfirst, get_record]
    · intro k hk
      rw [add_word_index]
      exact h (k + 1) (by simpa using hk)

/-- Every word of a block is read back, as long as the block fits into the memory. -/
theorem get_storeWords (m : FlatMemory) (address : UInt32) (values : List UInt32)
    (hlength : values.length ≤ 0x4000) {k : Nat} (hk : k < values.length) :
    (m.storeWords address values).get .word (address + 4 * UInt32.ofNat k) = values[k] := by
  induction values generalizing m address k with
  | nil => simp at hk
  | cons value values ih =>
    have hrest : values.length < 0x4000 := by simpa using hlength
    rw [storeWords]
    cases k with
    | zero =>
      have hzero : address + 4 * UInt32.ofNat 0 = address := UInt32.add_zero address
      rw [get_storeWords_of_apart, hzero, get_set_word, if_pos rfl]
      · rfl
      · intro j hj heq
        rw [add_word_index] at heq
        have := offset_inj .word address (by omega) (by omega) heq
        omega
    | succ k =>
      rw [← add_word_index]
      exact ih _ _ (by omega) (by simpa using hk)

/-- Storing a block asks for one write for each word, in order. -/
theorem trace_storeWords (m : FlatMemory) (address : UInt32) (values : List UInt32) :
    (m.storeWords address values).trace =
      (values.mapIdx fun k value =>
        BusRequest.write .word (address + 4 * UInt32.ofNat k) value).reverse ++ m.trace := by
  induction values generalizing m address with
  | nil => rfl
  | cons value values ih =>
    rw [storeWords, ih, List.mapIdx_cons, List.reverse_cons, List.append_assoc]
    simp only [add_word_index]
    rw [show address + 4 * UInt32.ofNat 0 = address from UInt32.add_zero address]
    rfl

end FlatMemory

/-! ## Lists of registers -/

namespace CpuState

/-- A write to a register of the current mode is a write through that mode. -/
theorem setReg_eq (s : CpuState) (r : Register) (value : UInt32) :
    s.setReg r value = s.setRegInMode s.mode r value := by
  unfold setRegInMode
  rw [slotOf_of_seen rfl]
  rfl

/-- The second state differs from the first in the registers of a list, the program counter apart:
they hold new words in the view of one mode. -/
structure Loaded (bank : Mode) (list : List Register) (word : Register → UInt32)
    (s t : CpuState) : Prop where
  cpsr : t.cpsr = s.cpsr
  spsr : t.spsr = s.spsr
  contents : ∀ p : PhysicalRegister, t.physicalValue p =
    if p.number ∈ list ∧ p.number ≠ Register.pc ∧ p.number.physical bank = p then word p.number
    else s.physicalValue p

variable {bank : Mode} {list : List Register} {word : Register → UInt32} {s t : CpuState}

theorem Loaded.nil (bank : Mode) (word : Register → UInt32) (s : CpuState) :
    s.Loaded bank [] word s where
  cpsr := rfl
  spsr := rfl
  contents p := by rw [if_neg (by simp)]

/-- The program counter of a list does not count. -/
theorem Loaded.skip (h : s.Loaded bank list word t) :
    s.Loaded bank (Register.pc :: list) word t where
  cpsr := h.cpsr
  spsr := h.spsr
  contents p := by
    rw [h.contents]
    refine if_congr ?_ rfl rfl
    simp only [List.mem_cons]
    tauto

/-- One more register in front of a list; none of the later ones is the same. -/
theorem Loaded.cons {r : Register} (hr : r ≠ Register.pc) (hfresh : r ∉ list)
    (h : (s.setRegInMode bank r (word r)).Loaded bank list word t) :
    s.Loaded bank (r :: list) word t := by
  obtain ⟨hcpsr, hspsr⟩ := status_setRegInMode s bank r (word r)
  refine ⟨h.cpsr.trans hcpsr, h.spsr.trans hspsr, fun p => ?_⟩
  rw [h.contents, physicalValue_setRegInMode, Function.update_apply]
  by_cases hp : p = r.physical bank
  · have hnumber : p.number = r := by rw [hp, Register.number_physical]
    rw [hnumber, if_neg fun hin => hfresh hin.1, if_pos hp, if_pos ⟨by simp, hr, hp.symm⟩]
  · rw [if_neg hp]
    refine if_congr ?_ rfl rfl
    have hne : p.number.physical bank = p → p.number ≠ r := by
      intro hp' hpr
      rw [hpr] at hp'
      exact hp hp'.symm
    simp only [List.mem_cons]
    tauto

theorem Loaded.congr {word' : Register → UInt32} (hword : ∀ r ∈ list, word r = word' r)
    (h : s.Loaded bank list word t) : s.Loaded bank list word' t where
  cpsr := h.cpsr
  spsr := h.spsr
  contents p := by
    rw [h.contents]
    by_cases hp : p.number ∈ list
    · rw [hword p.number hp]
    · rw [if_neg fun hin => hp hin.1, if_neg fun hin => hp hin.1]

theorem Loaded.mode (h : s.Loaded bank list word t) : t.mode = s.mode :=
  congrArg Mode.ofStatus h.cpsr

end CpuState

/-! ## Cores on flat memory -/

namespace Core

open MachineM

/-- The core's bus ends in a flat memory, and waiting for it changes nothing. -/
structure OnFlatMemory (core : Core FlatMemory) : Prop where
  read : core.read = FlatMemory.read
  write : core.write = FlatMemory.write
  waitTime : ∀ w address access b, (core.waitTime w address access b).2 = b

theorem minimalCore_onFlatMemory (p : Processor) : (FlatMemory.minimalCore p).OnFlatMemory :=
  ⟨rfl, rfl, fun _ _ _ _ => rfl⟩

variable {core : Core FlatMemory}

theorem OnFlatMemory.wait (hcore : core.OnFlatMemory) (w : Width) (address : UInt32)
    (access : Access) (m : Machine FlatMemory) :
    (core.wait w address access m).2.toBoard = m.toBoard :=
  hcore.waitTime w address access m.toBoard

/-- A reading gives what the memory has, and is kept in its trace. -/
theorem OnFlatMemory.peek (hcore : core.OnFlatMemory) (w : Width) (address : UInt32)
    (m : Machine FlatMemory) :
    (core.peek w address m).1 = m.system.get w address ∧
      (core.peek w address m).2.toBoard =
        { m.toBoard with system := m.system.record (.read w address) } := by
  have hpeek : core.peek w address m =
      (w.truncate (core.read w address m.toBoard).1,
        { m with toBoard := (core.read w address m.toBoard).2 }) := rfl
  rw [hpeek, hcore.read]
  exact ⟨Width.truncate_of_lt (m.system.get_lt w address), rfl⟩

theorem OnFlatMemory.load (hcore : core.OnFlatMemory) (w : Width) (address : UInt32)
    (access : Access) (m : Machine FlatMemory) :
    (core.load w address access m).1 =
        (if !core.processor.isV5 && w == .half && isBit address 0 then
          rotateRight (m.system.get w address) 8
        else m.system.get w address) ∧
      (core.load w address access m).2.toBoard =
        { m.toBoard with system := m.system.record (.read w address) } := by
  have hwait := hcore.wait w address access m
  have hload : core.load w address access m =
      ((if !core.processor.isV5 && w == .half && isBit address 0 then
          rotateRight (core.peek w address (core.wait w address access m).2).1 8
        else (core.peek w address (core.wait w address access m).2).1),
        (core.peek w address (core.wait w address access m).2).2) := rfl
  obtain ⟨hvalue, hboard⟩ := hcore.peek w address (core.wait w address access m).2
  rw [hload, hvalue, hboard, hwait]
  exact ⟨rfl, rfl⟩

theorem OnFlatMemory.load_word (hcore : core.OnFlatMemory) (address : UInt32) (access : Access)
    (m : Machine FlatMemory) :
    (core.load .word address access m).1 = m.system.get .word address ∧
      (core.load .word address access m).2.toBoard =
        { m.toBoard with system := m.system.record (.read .word address) } := by
  obtain ⟨hvalue, hboard⟩ := hcore.load .word address access m
  refine ⟨hvalue.trans (if_neg ?_), hboard⟩
  simp

theorem OnFlatMemory.store (hcore : core.OnFlatMemory) (w : Width) (address value : UInt32)
    (access : Access) (m : Machine FlatMemory) :
    (core.store w address value access m).2.toBoard =
      { m.toBoard with
        system := (m.system.record (.write w address (w.truncate value))).set w address
          (w.truncate value) } := by
  have hwait := hcore.wait w address access m
  have hstore : (core.store w address value access m).2.toBoard =
      (core.write w address (w.truncate value) (core.wait w address access m).2.toBoard).2 := rfl
  rw [hstore, hwait, hcore.write]
  rfl

theorem OnFlatMemory.store_word (hcore : core.OnFlatMemory) (address value : UInt32)
    (access : Access) (m : Machine FlatMemory) :
    (core.store .word address value access m).2.toBoard =
      { m.toBoard with
        system := (m.system.record (.write .word address value)).set .word address value } :=
  hcore.store .word address value access m

theorem bytes_instructionWidth (s : CpuState) : (instructionWidth s).bytes = s.instructionSize := by
  unfold instructionWidth CpuState.instructionSize
  split <;> rfl

theorem refill_eq {σ : Type} (core : Core σ) (m : Machine σ) :
    let w := instructionWidth m.cpu
    let first := (core.wait w m.cpu.pc (Access.nonSequential ||| Access.code) m).2
    let moved : Machine σ := { first with cpu := first.cpu.bumpPc w.bytes }
    let second := (core.wait w moved.cpu.pc (Access.sequential ||| Access.code) moved).2
    (core.refill m).2 = { second with
      cpu := { second.cpu with pipelineValid := false, accessType := Access.sequential } } := rfl

/-- The program counter of a jump goes to the target first, and one instruction on then. -/
theorem bumpPc_setReg_pc (s : CpuState) (target count : UInt32) :
    (s.setReg Register.pc target).bumpPc count = s.setReg Register.pc (target + count) := by
  have hpc : (s.setReg Register.pc target).pc = target := by
    show (s.setReg Register.pc target).reg Register.pc = target
    rw [CpuState.reg_setReg, if_pos rfl]
  unfold CpuState.bumpPc
  rw [hpc]
  simp only [CpuState.setReg, Vector.set_set]

theorem OnFlatMemory.refill (hcore : core.OnFlatMemory) (m : Machine FlatMemory) :
    (core.refill m).2.toBoard =
      { m.toBoard with
        cpu := { m.cpu.bumpPc m.cpu.instructionSize with
          pipelineValid := false, accessType := Access.sequential } } := by
  let w := instructionWidth m.cpu
  let first := (core.wait w m.cpu.pc (Access.nonSequential ||| Access.code) m).2
  let moved : Machine FlatMemory := { first with cpu := first.cpu.bumpPc w.bytes }
  let second := (core.wait w moved.cpu.pc (Access.sequential ||| Access.code) moved).2
  have hfirst : first.toBoard = m.toBoard := hcore.wait ..
  have hsecond : second.toBoard = moved.toBoard := hcore.wait ..
  have hmoved : moved.toBoard =
      { first.toBoard with cpu := first.toBoard.cpu.bumpPc w.bytes } := rfl
  rw [core.refill_eq]
  show { second.toBoard with
    cpu := { second.toBoard.cpu with
      pipelineValid := false, accessType := Access.sequential } } = _
  rw [hsecond, hmoved, hfirst, bytes_instructionWidth]

/-- A jump leaves the memory alone and the program counter one instruction ahead of the target. -/
theorem OnFlatMemory.jump (hcore : core.OnFlatMemory) (address : UInt32)
    (m : Machine FlatMemory) :
    (core.jump address m).2.toBoard =
      { m.toBoard with
        cpu := { m.cpu.startAt address with accessType := Access.sequential } } := by
  let target := alignDown address m.cpu.instructionSize
  let aimed : Machine FlatMemory := { m with cpu := m.cpu.setReg Register.pc target }
  have hjump : (core.jump address m).2.toBoard = (core.refill aimed).2.toBoard := rfl
  have hbump : aimed.cpu.bumpPc aimed.cpu.instructionSize =
      m.cpu.setReg Register.pc (target + m.cpu.instructionSize) := bumpPc_setReg_pc m.cpu target _
  rw [hjump, hcore.refill, hbump]
  rfl

/-! ## Storing and loading a list -/

theorem OnFlatMemory.storeBlock (hcore : core.OnFlatMemory)
    (value : Register → CpuState → UInt32) (list : List Register) (address : UInt32)
    (access : Access) (m : Machine FlatMemory) :
    (core.storeBlock value list address access m).2.toBoard =
      { m.toBoard with
        system := m.system.storeWords address (list.map fun r => value r m.cpu) } := by
  induction list generalizing address access m with
  | nil => rfl
  | cons r list ih =>
    have hfirst := hcore.store_word address (value r m.cpu) access m
    have hcons : core.storeBlock value (r :: list) address access m =
        core.storeBlock value list (address + 4) Access.sequential
          (core.store .word address (value r m.cpu) access m).2 := rfl
    rw [hcons, ih, List.map_cons, FlatMemory.storeWords]
    exact congrArg (fun b : Board FlatMemory => { b with
      system := b.system.storeWords (address + 4) (list.map fun r => value r b.cpu) }) hfirst

/-- The word that a list of registers, transferred from an address on, has for a register. -/
def wordFor (memory : FlatMemory) (address : UInt32) (list : List Register) (r : Register) :
    UInt32 :=
  memory.get .word (address + 4 * UInt32.ofNat (list.idxOf r))

theorem wordFor_cons (memory : FlatMemory) (address : UInt32) {r r' : Register}
    (list : List Register) (h : r' ≠ r) :
    wordFor memory address (r :: list) r' = wordFor memory (address + 4) list r' := by
  unfold wordFor
  rw [List.idxOf_cons_ne _ h.symm, ← add_word_index]

theorem wordFor_self (memory : FlatMemory) (address : UInt32) (r : Register)
    (list : List Register) : wordFor memory address (r :: list) r = memory.get .word address := by
  unfold wordFor
  rw [List.idxOf_cons_self]
  exact congrArg (memory.get .word) (UInt32.add_zero address)

/-- The mode in whose view a transfer reaches the registers. -/
def bankOf (userBank : Bool) (s : CpuState) : Mode := if userBank then .user else s.mode

/-- One register comes out of a load through the mode that the transfer reaches. -/
theorem setLoaded_eq (userBank : Bool) (r : Register) (value : UInt32) (s : CpuState) :
    (if userBank then s.setRegInMode .user r value else s.setReg r value) =
      s.setRegInMode (bankOf userBank s) r value := by
  cases userBank with
  | true => rfl
  | false => exact s.setReg_eq r value

theorem loadBlock_pc (userBank : Bool) (list : List Register) (address : UInt32)
    (access : Access) (m : Machine FlatMemory) :
    let first := core.load .word address access m
    core.loadBlock userBank (Register.pc :: list) address access m =
      (some first.1, (core.loadBlock userBank list (address + 4) Access.sequential first.2).2) :=
  rfl

theorem loadBlock_cons {σ : Type} (core : Core σ) (userBank : Bool) {r : Register}
    (hr : r ≠ Register.pc) (list : List Register) (address : UInt32) (access : Access)
    (m : Machine σ) :
    let first := core.load .word address access m
    core.loadBlock userBank (r :: list) address access m =
      core.loadBlock userBank list (address + 4) Access.sequential
        { first.2 with
          cpu := first.2.cpu.setRegInMode (bankOf userBank first.2.cpu) r first.1 } := by
  intro first
  have hcons : core.loadBlock userBank (r :: list) address access m =
      (if r = Register.pc then do
        let _ ← core.loadBlock userBank list (address + 4) Access.sequential
        return some first.1
      else do
        change fun s => if userBank then s.setRegInMode .user r first.1 else s.setReg r first.1
        core.loadBlock userBank list (address + 4) Access.sequential :
          MachineM σ (Option UInt32)) first.2 := rfl
  rw [hcons, if_neg hr, ← setLoaded_eq]
  rfl

/-- A list of registers is loaded from the memory as it was before, and the program counter is
handed on. -/
theorem OnFlatMemory.loadBlock (hcore : core.OnFlatMemory) (userBank : Bool)
    (list : List Register) (hlist : list.Nodup) (address : UInt32) (access : Access)
    (m : Machine FlatMemory) :
    let result := core.loadBlock userBank list address access m
    result.1 = (if Register.pc ∈ list then some (wordFor m.system address list Register.pc)
      else none) ∧
    m.cpu.Loaded (bankOf userBank m.cpu) list (wordFor m.system address list) result.2.cpu ∧
    result.2.system = m.system.readWords address list.length := by
  induction list generalizing address access m with
  | nil => exact ⟨rfl, .nil _ _ _, rfl⟩
  | cons r list ih =>
    obtain ⟨hfresh, hrest⟩ := List.nodup_cons.mp hlist
    obtain ⟨hvalue, hboard⟩ := hcore.load_word address access m
    let value := (core.load .word address access m).1
    let loaded := (core.load .word address access m).2
    have hcpu : loaded.cpu = m.cpu := by
      show loaded.toBoard.cpu = _
      rw [hboard]
    have hsystem : loaded.system = m.system.record (.read .word address) := by
      show loaded.toBoard.system = _
      rw [hboard]
    -- The words of the rest are the same in the memory that has kept the first request.
    have hword : ∀ r' ∈ list, wordFor loaded.system (address + 4) list r' =
        wordFor m.system address (r :: list) r' := by
      intro r' hr'
      rw [wordFor_cons _ _ _ (ne_of_mem_of_not_mem hr' hfresh), hsystem]
      exact FlatMemory.get_record _ _ _ _
    have hfirst : wordFor m.system address (r :: list) r = value :=
      (wordFor_self ..).trans hvalue.symm
    have hread : loaded.system.readWords (address + 4) list.length =
        m.system.readWords address (list.length + 1) := by
      rw [hsystem]
      rfl
    by_cases hr : r = Register.pc
    · subst hr
      obtain ⟨-, hload, hmemory⟩ := ih hrest (address + 4) Access.sequential loaded
      rw [loadBlock_pc]
      refine ⟨?_, ?_, hmemory.trans hread⟩
      · rw [if_pos (by simp), hfirst]
      · rw [← hcpu]
        exact (hload.congr hword).skip
    · let bank := bankOf userBank loaded.cpu
      let stored : Machine FlatMemory :=
        { loaded with cpu := loaded.cpu.setRegInMode bank r value }
      have hbank : bankOf userBank stored.cpu = bank := by
        have hstatus : stored.cpu.mode = loaded.cpu.mode :=
          congrArg Mode.ofStatus (CpuState.status_setRegInMode loaded.cpu bank r value).1
        unfold bankOf
        rw [hstatus]
        rfl
      obtain ⟨htarget, hload, hmemory⟩ := ih hrest (address + 4) Access.sequential stored
      rw [loadBlock_cons core userBank hr]
      refine ⟨htarget.trans ?_, ?_, hmemory.trans hread⟩
      · simp only [List.mem_cons, Ne.symm hr, false_or]
        split
        · next hin => exact congrArg some (hword _ hin)
        · rfl
      · rw [hbank] at hload
        refine .cons hr hfresh ?_
        rw [hfirst, ← hcpu]
        exact hload.congr hword

/-! ## Behind the transfers -/

/-- The processor's state after a loaded program counter, if there is one, was followed. -/
def followed (isV5 statusBit : Bool) (target : Option UInt32) (s : CpuState) : CpuState :=
  match target with
  | none => s
  | some address =>
    let t :=
      if statusBit then s.setCpsr s.savedStatus
      else if isV5 then s.setFlag .thumb (isBit address 0)
      else s
    { t.startAt address with accessType := Access.sequential }

theorem OnFlatMemory.endTransfer (hcore : core.OnFlatMemory) (statusBit : Bool)
    (target : Option UInt32) (m : Machine FlatMemory) :
    (core.endTransfer statusBit target m).2.toBoard =
      { m.toBoard with cpu := followed core.processor.isV5 statusBit target m.cpu } := by
  cases target with
  | none => rfl
  | some address =>
    unfold Core.endTransfer followed
    cases statusBit with
    | true => exact hcore.jump address { m with cpu := m.cpu.setCpsr m.cpu.savedStatus }
    | false =>
      show (Core.setLoaded core Register.pc address m).2.toBoard = _
      unfold Core.setLoaded
      rw [if_pos rfl]
      cases core.processor.isV5 with
      | true => exact hcore.jump address { m with cpu := m.cpu.setFlag .thumb (isBit address 0) }
      | false => exact hcore.jump address m

/-- The processor's state behind the accesses of a transfer, which may move its base. -/
def settled (moves : Bool) (n : Register) (newBase : UInt32) (s : CpuState) : CpuState :=
  { if moves then s.setReg n newBase else s with accessType := Access.nonSequential }

/-- The end of a transfer changes the processor's state alone. -/
theorem OnFlatMemory.finishTransfer (hcore : core.OnFlatMemory) (n : Register) (newBase : UInt32)
    (moves load statusBit : Bool) (target : Option UInt32) (m : Machine FlatMemory) :
    (core.finishTransfer n newBase moves load statusBit target m).2.toBoard =
      { m.toBoard with
        cpu := followed core.processor.isV5 statusBit target (settled moves n newBase m.cpu) } := by
  cases moves <;> cases load <;> exact hcore.endTransfer statusBit target _

section
variable (moves : Bool) (n : Register) (newBase : UInt32) (s : CpuState)

theorem cpsr_settled : (settled moves n newBase s).cpsr = s.cpsr := by
  cases moves <;> rfl

theorem spsr_settled : (settled moves n newBase s).spsr = s.spsr := by
  cases moves <;> rfl

/-- The base goes over what was there before, loaded or not. -/
theorem physicalValue_settled (p : PhysicalRegister) :
    (settled moves n newBase s).physicalValue p =
      if moves = true ∧ p = n.physical s.mode then newBase else s.physicalValue p := by
  cases moves with
  | true =>
    show (s.setReg n newBase).physicalValue p = _
    rw [CpuState.physicalValue_setReg, Function.update_apply]
    simp only [true_and]
  | false => exact (if_neg fun h => Bool.false_ne_true h.1).symm

end

section
variable (isV5 statusBit : Bool) (address : UInt32) (s : CpuState)

theorem physicalValue_startAt (s : CpuState) (address : UInt32) {p : PhysicalRegister}
    (hp : p ≠ .pc) : (s.startAt address).physicalValue p = s.physicalValue p := by
  show (s.setReg Register.pc _).physicalValue p = _
  rw [CpuState.physicalValue_setReg, Register.physical_pc, Function.update_of_ne hp]

theorem physicalValue_followed (target : Option UInt32) {p : PhysicalRegister} (hp : p ≠ .pc) :
    (followed isV5 statusBit target s).physicalValue p = s.physicalValue p := by
  cases target with
  | none => rfl
  | some address =>
    refine (physicalValue_startAt _ address hp).trans ?_
    split
    · rw [CpuState.physicalValue_setCpsr]
    · split
      · exact congrFun (CpuState.physicalValue_withStatus s (Mode.ofStatus_setBit _ .thumb _)) p
      · rfl

theorem spsr_followed (target : Option UInt32) :
    (followed isV5 statusBit target s).spsr = s.spsr := by
  cases target with
  | none => rfl
  | some address =>
    unfold followed
    cases statusBit <;> cases isV5 <;> rfl

theorem cpsr_followed :
    (followed isV5 statusBit (some address) s).cpsr =
      if statusBit then s.savedStatus
      else if isV5 then setBit s.cpsr Flag.thumb.position (isBit address 0)
      else s.cpsr := by
  unfold followed
  cases statusBit <;> cases isV5 <;> rfl

theorem savedStatus_congr {s t : CpuState} (hcpsr : t.cpsr = s.cpsr) (hspsr : t.spsr = s.spsr) :
    t.savedStatus = s.savedStatus := by
  have hmode : t.mode = s.mode := congrArg Mode.ofStatus hcpsr
  unfold CpuState.savedStatus
  simp only [hmode, hcpsr, hspsr]

theorem nextInstruction_startAt (s : CpuState) (address : UInt32) :
    (s.startAt address).nextInstruction =
      alignDown address (s.startAt address).instructionSize := by
  show (s.setReg Register.pc _).reg Register.pc - s.instructionSize = alignDown address _
  rw [CpuState.reg_setReg, if_pos rfl, UInt32.add_sub_cancel]
  rfl

end

end Core
end Handheld
