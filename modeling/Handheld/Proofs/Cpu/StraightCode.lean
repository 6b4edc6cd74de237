import Handheld.Proofs.Cpu.Looking

/-!
# Straight pieces of code

Code of long instructions that runs with interrupts masked, one instruction after the other. What
a processor has done so far shows in its register file, in the system and in the address that it
has come to: `Core.Before` is the board in front of an instruction, `Core.During` the machine that
executes it. Every kind of instruction leads from one board to the next, by a write to a register,
by a jump, or by the loads of a block.
-/

namespace Handheld

open Word MachineM CpuState

variable {σ : Type}

namespace CpuState

/-- A processor that executes long instructions and lets no interrupt through. -/
structure Masked (s : CpuState) : Prop where
  long : s.isFlag .thumb = false
  masked : s.isFlag .irqDisable = true

theorem Masked.instructionSize {s : CpuState} (h : s.Masked) : s.instructionSize = 4 := by
  rw [CpuState.instructionSize, h.long]
  rfl

theorem Masked.instructionWidth {s : CpuState} (h : s.Masked) :
    Core.instructionWidth s = .word := by
  rw [Core.instructionWidth, h.long]
  rfl

theorem Masked.congr {s t : CpuState} (h : s.Masked) (hcpsr : t.cpsr = s.cpsr) : t.Masked where
  long := (isFlag_congr hcpsr .thumb).trans h.long
  masked := (isFlag_congr hcpsr .irqDisable).trans h.masked

/-- A jump to an even address that names the instruction set stays in long instructions. -/
theorem Masked.setFlag_thumb {s : CpuState} (h : s.Masked) {address : UInt32}
    (haddress : 4 ∣ address.toNat) : s.setFlag .thumb (isBit address 0) = s := by
  have heven : isBit address 0 = false := by
    rw [isBit_eq_testBit _ (by decide), Nat.testBit_zero]
    exact decide_eq_false (by omega)
  have hstatus : setBit s.cpsr Flag.thumb.position false = s.cpsr := by
    refine ext_isBit fun i hi => ?_
    rw [isBit_setBit _ _ (by decide) hi]
    split
    · next hthumb =>
      rw [hthumb]
      exact h.long.symm
    · rfl
  rw [heven, setFlag, hstatus]

/-! ## Several registers at once -/

/-- A processor with new values in a list of registers. -/
def setAll (value : Register → UInt32) (s : CpuState) : List Register → CpuState
  | [] => s
  | r :: list => setAll value (s.setReg r (value r)) list

section
variable (value : Register → UInt32) (s : CpuState) {list : List Register}

theorem status_setAll (list : List Register) : (s.setAll value list).cpsr = s.cpsr ∧
    (s.setAll value list).spsr = s.spsr ∧ (s.setAll value list).isHalted = s.isHalted := by
  induction list generalizing s with
  | nil => exact ⟨rfl, rfl, rfl⟩
  | cons r list ih => exact ih (s.setReg r (value r))

theorem sameFetch_setReg {r : Register} (hr : r ≠ Register.pc) (value : UInt32) :
    s.SameFetch (s.setReg r value) := ⟨⟨pc_setReg s hr value, rfl⟩, rfl, rfl⟩

/-- The kind of the next fetch is no part of what was fetched. -/
theorem SameFetch.withAccess {s t : CpuState} (h : s.SameFetch t) (access : Access) :
    s.SameFetch { t with accessType := access } :=
  ⟨⟨h.pc, h.cpsr⟩, h.pipeline, h.pipelineValid⟩

theorem sameFetch_setAll (hpc : Register.pc ∉ list) : s.SameFetch (s.setAll value list) := by
  induction list generalizing s with
  | nil => exact .refl s
  | cons r list ih =>
    obtain ⟨hr, hlist⟩ := not_or.mp (List.mem_cons.not.mp hpc)
    exact (s.sameFetch_setReg (Ne.symm hr) _).trans (ih _ hlist)

/-- Of the register file, the registers of the list change. -/
theorem physicalValue_setAll (q : PhysicalRegister) :
    (s.setAll value list).physicalValue q =
      if q.number ∈ list ∧ q.number.physical s.mode = q then value q.number
      else s.physicalValue q := by
  induction list generalizing s with
  | nil => exact (if_neg fun h => List.not_mem_nil h.1).symm
  | cons r list ih =>
    rw [setAll, ih]
    show (if q.number ∈ list ∧ q.number.physical s.mode = q then value q.number
      else (s.setReg r (value r)).physicalValue q) = _
    rw [physicalValue_setReg, Function.update_apply]
    -- A register that is listed again later gets the same value once more.
    by_cases hq : q = r.physical s.mode
    · have hnumber : q.number = r := by rw [hq, Register.number_physical]
      rw [hnumber, if_pos hq, ite_self]
      exact (if_pos ⟨List.mem_cons_self, hq.symm⟩).symm
    · have hne : q.number.physical s.mode = q → q.number ≠ r := fun hphysical hnumber =>
        hq (by rw [← hphysical, hnumber])
      rw [if_neg hq]
      refine if_congr ?_ rfl rfl
      rw [List.mem_cons]
      tauto

end

end CpuState

namespace Core

/-- Behind the accesses of a block transfer without the program counter, only the base moves. -/
theorem finishTransfer_none (core : Core σ) (n : Register) (newBase : UInt32)
    (moves load statusBit : Bool) (m : Machine σ) :
    (core.finishTransfer n newBase moves load statusBit none m).2.toBoard =
      { m.toBoard with cpu := settled moves n newBase m.cpu } := by
  cases moves <;> cases load <;> rfl

/-- A board before the long instruction at an address. Beside the place, it shows the status
registers of a processor's state, a register file, the program counter apart, and a system. -/
structure Before (stored : Store σ) (s : CpuState) (file : PhysicalRegister → UInt32) (system : σ)
    (address : UInt32) (c : Board σ) : Prop where
  awake : c.cpu.isHalted = false
  cpsr : c.cpu.cpsr = s.cpsr
  spsr : c.cpu.spsr = s.spsr
  file : ∀ q ≠ PhysicalRegister.pc, c.cpu.physicalValue q = file q
  pc : c.cpu.pc = address + 4
  around : c.system = system
  prefetched : Prefetched stored c

/-- A machine that executes the long instruction at an address and has fetched ahead. -/
structure During (stored : Store σ) (s : CpuState) (file : PhysicalRegister → UInt32) (system : σ)
    (address : UInt32) (m : Machine σ) : Prop where
  awake : m.cpu.isHalted = false
  cpsr : m.cpu.cpsr = s.cpsr
  spsr : m.cpu.spsr = s.spsr
  file : ∀ q ≠ PhysicalRegister.pc, m.cpu.physicalValue q = file q
  pc : m.cpu.pc = address + 8
  around : m.system = system
  pipeline : m.cpu.pipeline =
    #v[stored system .word (address + 4), stored system .word (address + 8)]

variable {core : Core σ} {stored : Store σ} {s : CpuState} {file file' : PhysicalRegister → UInt32}
  {system system' : σ} {address : UInt32} {c d : Board σ} {m : Machine σ}

theorem Before.nextInstruction (hc : Before stored s file system address c) (hs : s.Masked) :
    c.cpu.nextInstruction = address := by
  rw [CpuState.nextInstruction, hc.pc, (hs.congr hc.cpsr).instructionSize, UInt32.add_sub_cancel]

theorem Before.canRun (hc : Before stored s file system address c) : core.canRun c = true := by
  unfold Core.canRun
  rw [hc.awake]
  rfl

theorem Before.calm (hc : Before stored s file system address c) (hs : s.Masked) :
    core.takesInterrupt c = false := by
  unfold takesInterrupt
  rw [(hs.congr hc.cpsr).masked]
  exact Bool.and_false _

/-- Neither the kind of the next fetch nor the log shows. -/
theorem Before.withAccess (hc : Before stored s file system address c) {access : Access}
    (hcpu : d.cpu = { c.cpu with accessType := access }) (hsystem : d.system = c.system) :
    Before stored s file system address d where
  awake := by rw [hcpu]; exact hc.awake
  cpsr := by rw [hcpu]; exact hc.cpsr
  spsr := by rw [hcpu]; exact hc.spsr
  file q hq := by rw [hcpu]; exact hc.file q hq
  pc := by rw [hcpu]; exact hc.pc
  around := hsystem.trans hc.around
  prefetched := by
    unfold Prefetched
    rw [hcpu, hsystem]
    exact hc.prefetched

namespace During

theorem mode (hm : During stored s file system address m) : m.cpu.mode = s.mode :=
  congrArg Mode.ofStatus hm.cpsr

/-- A register of the current mode. -/
theorem reg (hm : During stored s file system address m) {r : Register} (hr : r ≠ Register.pc) :
    m.cpu.reg r = file (r.physical s.mode) := by
  rw [← physicalValue_eq_reg, hm.mode]
  refine hm.file _ fun hpc => hr ?_
  rw [← Register.number_physical s.mode r, hpc]
  rfl

/-- The register that was written last. -/
theorem reg_update {r : Register} {value : UInt32}
    (hm : During stored s (Function.update file (r.physical s.mode) value) system address m)
    (hr : r ≠ Register.pc) : m.cpu.reg r = value := (hm.reg hr).trans (Function.update_self ..)

/-- An instruction that is no jump ends before the next one, with a new register file and, where
no opcode is kept that is fetched already, a new system. -/
theorem before (hm : During stored s file system address m) (hs : s.Masked)
    (hfetch : m.cpu.SameFetch c.cpu) (hawake : c.cpu.isHalted = m.cpu.isHalted)
    (hspsr : c.cpu.spsr = m.cpu.spsr)
    (hfile : ∀ q ≠ PhysicalRegister.pc, c.cpu.physicalValue q = file' q)
    (hsystem : c.system = system')
    (hnext : stored system' .word (address + 4) = stored system .word (address + 4))
    (hsecond : stored system' .word (address + 8) = stored system .word (address + 8)) :
    Before stored s file' system' (address + 4) c where
  awake := hawake.trans hm.awake
  cpsr := hfetch.cpsr.trans hm.cpsr
  spsr := hspsr.trans hm.spsr
  file := hfile
  pc := by
    rw [hfetch.pc, hm.pc, UInt32.add_assoc]
    rfl
  around := hsystem
  prefetched := by
    -- Both opcodes that were fetched ahead are still the stored ones.
    intro _
    have hmasked : c.cpu.Masked := hs.congr (hfetch.cpsr.trans hm.cpsr)
    have hplace : c.cpu.nextInstruction = address + 4 := by
      rw [CpuState.nextInstruction, hmasked.instructionSize, hfetch.pc, hm.pc]
      grind
    rw [hmasked.instructionWidth, hplace, hfetch.pc, hfetch.pipeline, hm.pc, hm.pipeline, hsystem,
      hnext, hsecond]

/-- An instruction that writes one register ends before the next one. -/
theorem before_setReg (hm : During stored s file system address m) (hs : s.Masked)
    {r : Register} (hr : r ≠ Register.pc) {value : UInt32} {access : Access}
    (hcpu : c.cpu = { m.cpu.setReg r value with accessType := access })
    (hsystem : c.system = system')
    (hnext : stored system' .word (address + 4) = stored system .word (address + 4))
    (hsecond : stored system' .word (address + 8) = stored system .word (address + 8)) :
    Before stored s (Function.update file (r.physical s.mode) value) system' (address + 4) c := by
  refine hm.before hs ?_ (by rw [hcpu]; rfl) (by rw [hcpu]; rfl) (fun q hq => ?_) hsystem hnext
    hsecond
  · rw [hcpu]
    exact (m.cpu.sameFetch_setReg hr value).withAccess access
  · rw [hcpu]
    show (m.cpu.setReg r value).physicalValue q = _
    rw [physicalValue_setReg, hm.mode, Function.update_apply, Function.update_apply]
    split
    · rfl
    · exact hm.file q hq

/-- If that is all it does, the system stays. -/
theorem before_putReg (hm : During stored s file system address m) (hs : s.Masked)
    {r : Register} (hr : r ≠ Register.pc) {value : UInt32} (hcpu : c.cpu = m.cpu.setReg r value)
    (hsystem : c.system = m.system) :
    Before stored s (Function.update file (r.physical s.mode) value) system (address + 4) c :=
  hm.before_setReg hs hr (hcpu.trans rfl) (hsystem.trans hm.around) rfl rfl

end During

namespace Looking

variable (h : core.Looking stored)

include h

/-- The next opcode is what is stored there. -/
theorem nextOpcode (hs : s.Masked) (hc : Before stored s file system address c) :
    core.nextOpcode c = (false, stored system .word address) := by
  have hmasked : c.cpu.Masked := hs.congr hc.cpsr
  obtain ⟨hopcode, -, -, -⟩ := h.backed.fetched hc.prefetched
  rw [hopcode, hmasked.long, hmasked.instructionWidth, hc.nextInstruction hs, hc.around]

/-- The step from an instruction on executes what is stored there. -/
theorem during (hs : s.Masked) (hc : Before stored s file system address c) {word : UInt32}
    (hword : stored system .word address = word) (halways : Arm.condition word = 14) :
    ∃ m, During stored s file system address m ∧ (core.step c).2 =
      (core.runArm word (Arm.decode core.processor.isV5 word) m).2.toBoard := by
  have hmasked : c.cpu.Masked := hs.congr hc.cpsr
  have hword' : stored c.system .word c.cpu.nextInstruction = word := by
    rw [hc.nextInstruction hs, hc.around, hword]
  obtain ⟨m, hcpu, hsystem, hstep⟩ :=
    h.step_always hc.awake (hc.calm hs) hc.prefetched hmasked.long hword' halways
  refine ⟨m, ?_, hstep⟩
  have hpc : m.cpu.pc = address + 8 := by
    rw [hcpu, pc_afterFetch, hmasked.instructionSize, hc.pc, UInt32.add_assoc]
    rfl
  have hpipeline : m.cpu.pipeline =
      #v[stored system .word (address + 4), stored system .word (address + 8)] := by
    rw [hcpu, ← hc.around, hc.pc]
    show #v[_, stored c.system .word (address + 4 + 4)] = _
    rw [UInt32.add_assoc]
    rfl
  exact {
    awake := by rw [hcpu]; rfl
    cpsr := by rw [hcpu]; exact hc.cpsr
    spsr := by rw [hcpu]; exact hc.spsr
    file := fun q hq => by rw [hcpu, physicalValue_afterFetch _ _ hq]; exact hc.file q hq
    pc := hpc
    around := hsystem.trans hc.around
    pipeline := hpipeline }

/-! ## Jumps -/

/-- A jump ends before the instruction at its target. -/
theorem before_jump (hs : s.Masked) (hm : During stored s file system address m) {target : UInt32}
    (htarget : 4 ∣ target.toNat) :
    Before stored s file system target (core.jump target m).2.toBoard := by
  obtain ⟨hcpu, hsystem⟩ := h.jump target m
  have hmasked : m.cpu.Masked := hs.congr hm.cpsr
  exact {
    awake := by rw [hcpu]; exact hm.awake
    cpsr := by rw [hcpu]; exact hm.cpsr
    spsr := by rw [hcpu]; exact hm.spsr
    file := fun q hq => by rw [hcpu, physicalValue_landed _ _ hq]; exact hm.file q hq
    pc := by
      rw [hcpu, pc_landed, hmasked.instructionSize,
        Address.alignDown_of_dvd (k := 2) rfl htarget]
    around := hsystem.trans hm.around
    -- A jump drops what was fetched ahead.
    prefetched := fun hvalid => by
      rw [hcpu] at hvalid
      cases hvalid }

theorem before_exchange (hs : s.Masked) (hm : During stored s file system address m)
    {target : UInt32} (htarget : 4 ∣ target.toNat) :
    Before stored s file system target (core.exchange target m).2.toBoard := by
  have hmasked : m.cpu.Masked := hs.congr hm.cpsr
  have hexchange : core.exchange target m =
      core.jump target { m with cpu := m.cpu.setFlag .thumb (isBit target 0) } := rfl
  rw [hexchange, hmasked.setFlag_thumb htarget]
  exact h.before_jump hs hm htarget

/-- A loaded program counter is followed, whether it names the instruction set or not. -/
theorem before_setLoaded (hs : s.Masked) (hm : During stored s file system address m)
    {target : UInt32} (htarget : 4 ∣ target.toNat) :
    Before stored s file system target (core.setLoaded Register.pc target m).2.toBoard := by
  unfold Core.setLoaded
  rw [if_pos rfl]
  split
  · exact h.before_exchange hs hm htarget
  · exact h.before_jump hs hm htarget

/-! ## Loads -/

theorem load_word (address : UInt32) (access : Access) (m : Machine σ) :
    (core.load .word address access m).1 = stored m.system .word address ∧
      (core.load .word address access m).2.cpu = m.cpu ∧
      (core.load .word address access m).2.system = m.system := by
  let waited := (core.wait .word address access m).2
  have hload : core.load .word address access m = core.peek .word address waited := by
    unfold Core.load
    simp only [show (Width.word == Width.half) = false from rfl, Bool.and_false, Bool.false_and]
    rfl
  have hsystem : waited.system = m.system := h.system_wait ..
  rw [hload]
  refine ⟨?_, (h.quiet.peek ..).trans (h.quiet.wait ..), (h.system_peek ..).trans hsystem⟩
  rw [h.peek_value, hsystem]

/-- During an instruction, a load changes nothing. -/
theorem during_load (hm : During stored s file system address m) (place : UInt32)
    (access : Access) :
    During stored s file system address (core.load .word place access m).2 := by
  obtain ⟨-, hcpu, hsystem⟩ := h.load_word place access m
  exact {
    awake := by rw [hcpu]; exact hm.awake
    cpsr := by rw [hcpu]; exact hm.cpsr
    spsr := by rw [hcpu]; exact hm.spsr
    file := fun q hq => by rw [hcpu]; exact hm.file q hq
    pc := by rw [hcpu]; exact hm.pc
    around := hsystem.trans hm.around
    pipeline := by rw [hcpu]; exact hm.pipeline }

/-- A block of words is loaded into the registers of a list. -/
theorem loadBlock {value : Register → UInt32} {list : List Register} (hpc : Register.pc ∉ list)
    {place : UInt32} (access : Access) (m : Machine σ)
    (hwords : ∀ k (hk : k < list.length),
      stored m.system .word (place + 4 * UInt32.ofNat k) = value list[k]) :
    (core.loadBlock false list place access m).1 = none ∧
      (core.loadBlock false list place access m).2.cpu = m.cpu.setAll value list ∧
      (core.loadBlock false list place access m).2.system = m.system := by
  induction list generalizing place access m with
  | nil => exact ⟨rfl, rfl, rfl⟩
  | cons r list ih =>
    obtain ⟨hr, hlist⟩ := not_or.mp (List.mem_cons.not.mp hpc)
    let first := core.load .word place access m
    obtain ⟨hvalue, hcpu, hsystem⟩ := h.load_word place access m
    let written : Machine σ := { first.2 with cpu := first.2.cpu.setReg r first.1 }
    have hcons : core.loadBlock false (r :: list) place access m =
        core.loadBlock false list (place + 4) Access.sequential written := by
      rw [core.loadBlock_cons false (Ne.symm hr), ← setLoaded_eq]
      rfl
    have hfirst : first.1 = value r := by
      refine hvalue.trans ?_
      have hzero := hwords 0 (by simp)
      rwa [show place + 4 * UInt32.ofNat 0 = place from UInt32.add_zero place] at hzero
    have hwritten : written.cpu = m.cpu.setReg r (value r) := by
      show (core.load .word place access m).2.cpu.setReg r first.1 = _
      rw [hcpu, hfirst]
    have hrest : written.system = m.system := hsystem
    -- The rest of the list is loaded from one word further up.
    obtain ⟨htarget, hregisters, hkept⟩ := ih hlist Access.sequential written fun k hk => by
      rw [hrest, add_word_index]
      exact hwords (k + 1) (by simpa using hk)
    rw [hcons]
    refine ⟨htarget, ?_, hkept.trans hrest⟩
    rw [hregisters, hwritten]
    rfl

end Looking
end Core
end Handheld
