import Handheld.FlatMemory
import Handheld.Proofs.Cpu.Runs

/-!
# Aligned execution

The program counter is a multiple of the size of an instruction at every boundary between two
steps, whatever a processor executes, as long as its callbacks leave the program counter and the
status alone. A skid cannot break this: it starts from the address of a word, moves by words, and
such an address suits both instruction sets.
-/

namespace Handheld

open MachineM CpuState

variable {σ : Type}

namespace CpuState

/-- A processor that was pointed at an address is aligned. -/
theorem aligned_startAt (s : CpuState) (address : UInt32) : (s.startAt address).Aligned := by
  have hpc : (s.startAt address).pc =
      Address.alignDown address s.instructionSize + s.instructionSize := by
    show (s.setReg Register.pc _).reg Register.pc = _
    rw [reg_setReg, if_pos rfl]
  unfold Aligned
  rw [hpc]
  exact s.dvd_alignDown_add address

variable {s t : CpuState}

theorem SamePlace.aligned (h : s.SamePlace t) (hs : s.Aligned) : t.Aligned := by
  unfold Aligned
  rw [h.pc, instructionSize_congr (h.isFlag .thumb)]
  exact hs

/-- An aligned processor stays aligned when it moves on by one instruction. -/
theorem Aligned.advance (hs : s.Aligned) (hpc : t.pc = s.pc + s.instructionSize)
    (hcpsr : t.cpsr = s.cpsr) : t.Aligned := by
  have hthumb : t.isFlag .thumb = s.isFlag .thumb := isFlag_congr hcpsr .thumb
  obtain ⟨k, hk, hsize⟩ := s.instructionSize_eq_two_pow
  have hwrap : 2 ^ k ∣ 2 ^ 32 := pow_dvd_pow 2 (by omega)
  unfold Aligned at hs ⊢
  rw [instructionSize_congr hthumb, hpc, UInt32.toNat_add]
  rw [hsize] at hs ⊢
  exact (Nat.dvd_mod_iff hwrap).mpr (Dvd.dvd.add hs dvd_rfl)

/-- The next instruction of an aligned processor is at an address of its instruction set. -/
theorem Aligned.dvd_nextInstruction (hs : s.Aligned) :
    s.instructionSize.toNat ∣ s.nextInstruction.toNat := by
  obtain ⟨k, hk, hsize⟩ := s.instructionSize_eq_two_pow
  have hwrap : 2 ^ k ∣ 2 ^ 32 := pow_dvd_pow 2 (by omega)
  unfold Aligned at hs
  unfold nextInstruction
  rw [UInt32.toNat_sub, hsize]
  rw [hsize] at hs
  exact (Nat.dvd_mod_iff hwrap).mpr (Dvd.dvd.add (Nat.dvd_sub hwrap dvd_rfl) hs)

/-- In the set of long instructions alignment is that of words. -/
theorem Aligned.four_dvd (hs : s.Aligned) (harm : s.isFlag .thumb = false) :
    4 ∣ s.pc.toNat := by
  unfold Aligned at hs
  rwa [toNat_instructionSize, harm] at hs

end CpuState

namespace Core

variable {core : Core σ}

/-! ## Fetching -/

theorem Within.revalidate (h : core.Within SamePlace) (m : Machine σ) :
    m.cpu.SamePlace (core.revalidate m).2.cpu := by
  cases hvalid : m.cpu.pipelineValid with
  | true =>
    rw [core.revalidate_of_valid hvalid]
    exact ⟨rfl, rfl⟩
  | false =>
    rw [core.revalidate_of_stale hvalid]
    let first := core.peek (instructionWidth m.cpu)
      (m.cpu.pc - (instructionWidth m.cpu).bytes) m
    have hfirst := h.peek (instructionWidth m.cpu)
      (m.cpu.pc - (instructionWidth m.cpu).bytes) m
    have hsecond := h.peek (instructionWidth m.cpu) m.cpu.pc first.2
    exact ⟨hsecond.pc.trans hfirst.pc, hsecond.cpsr.trans hfirst.cpsr⟩

/-- A fetch moves the program counter on by one instruction and leaves the status alone. -/
theorem Within.fetchNext (h : core.Within SamePlace) (m : Machine σ) :
    (core.fetchNext m).1.1 = m.cpu.isFlag .thumb ∧
      (core.fetchNext m).2.cpu.pc = m.cpu.pc + m.cpu.instructionSize ∧
      (core.fetchNext m).2.cpu.cpsr = m.cpu.cpsr := by
  let ready := (core.revalidate m).2
  let w := instructionWidth ready.cpu
  let moved : Machine σ := { ready with cpu := ready.cpu.bumpPc w.bytes }
  let waited := (core.wait w moved.cpu.pc (moved.cpu.accessType ||| Access.code) moved).2
  let incoming := core.peek w moved.cpu.pc waited
  have hready : m.cpu.SamePlace ready.cpu := h.revalidate m
  have hmoved : moved.cpu.pc = ready.cpu.pc + w.bytes := by
    show (ready.cpu.setReg Register.pc _).reg Register.pc = _
    rw [reg_setReg, if_pos rfl]
  have hwaited : moved.cpu.SamePlace waited.cpu := h.wait ..
  have hincoming : waited.cpu.SamePlace incoming.2.cpu := h.peek ..
  refine ⟨hready.isFlag .thumb, ?_, ?_⟩
  · show incoming.2.cpu.pc = _
    rw [hincoming.pc, hwaited.pc, hmoved, hready.pc, bytes_instructionWidth,
      instructionSize_congr (hready.isFlag .thumb)]
  · show incoming.2.cpu.cpsr = _
    rw [hincoming.cpsr, hwaited.cpsr]
    exact hready.cpsr

/-- The machine on which a step executes its opcode is one instruction further on. -/
theorem Within.fetched (h : core.Within SamePlace) (b : Board σ) :
    (core.nextOpcode b).1 = b.cpu.isFlag .thumb ∧
      (core.fetched b).cpu.pc = b.cpu.pc + b.cpu.instructionSize ∧
      (core.fetched b).cpu.cpsr = b.cpu.cpsr := by
  obtain ⟨hthumb, hpc, hcpsr⟩ := h.fetchNext { toBoard := core.woken b }
  have hwoken : (core.woken b).cpu.pc = b.cpu.pc ∧ (core.woken b).cpu.cpsr = b.cpu.cpsr := by
    rw [woken_cpu]
    exact ⟨rfl, rfl⟩
  have hset := isFlag_congr hwoken.2 .thumb
  refine ⟨hthumb.trans hset, hpc.trans ?_, hcpsr.trans hwoken.2⟩
  show (core.woken b).cpu.pc + (core.woken b).cpu.instructionSize = _
  rw [hwoken.1, instructionSize_congr hset]

/-! ## Steps -/

/-- Alignment is a steady property. -/
theorem Within.steady_aligned (h : core.Within SamePlace) : core.Steady Aligned where
  congr hcourse hs := hs.congr hcourse
  landed haligned _ := haligned
  within := h.mono fun _ _ hplace => ⟨hplace, hplace.aligned⟩

/-- A step leaves an aligned processor aligned. -/
theorem Within.step_aligned (h : core.Within SamePlace) {b : Board σ} (hb : b.cpu.Aligned) :
    (core.step b).2.cpu.Aligned := by
  have hsteady := h.steady_aligned
  cases hrun : core.canRun b with
  | false =>
    rw [step_of_asleep hrun]
    exact hb
  | true =>
    cases htaken : core.takesInterrupt b with
    | true =>
      rw [step_of_taken hrun htaken]
      exact (hsteady.raise .interruptRequest).cpu _
    | false =>
      rw [step_of_running hrun htaken]
      obtain ⟨hthumb, hpc, hcpsr⟩ := h.fetched b
      have hfetched : (core.fetched b).cpu.Aligned := hb.advance hpc hcpsr
      have hset : (core.fetched b).cpu.isFlag .thumb = (core.nextOpcode b).1 :=
        (isFlag_congr hcpsr .thumb).trans hthumb.symm
      refine hsteady.execute _ hfetched hset fun hskids s hstays => ?_
      -- Only long instructions skid, and words are aligned for either set.
      have harm : (core.nextOpcode b).1 = false := by
        unfold skids at hskids
        simp only [Bool.and_eq_true, Bool.not_eq_true'] at hskids
        exact hskids.1.1
      exact aligned_of_four_dvd (hstays (hfetched.four_dvd (hset.trans harm)))

/-- Every board that a core reaches is aligned. -/
theorem Reached.aligned (h : core.Within SamePlace) {b : Board σ} (run : core.Reached b) :
    b.cpu.Aligned := by
  induction run with
  | start b address => exact aligned_startAt b.cpu address
  | step _ ih => exact h.step_aligned ih
  | outside _ _ _ ih => exact ih

/-- **The program counter stays aligned.** However far a core has run from an address on, through
any instructions, interrupts and software interrupts, its program counter and the address of its
next instruction are multiples of the size of an instruction in its instruction set. -/
theorem pc_stays_aligned (core : Core σ) (hcore : core.Within SamePlace) {b : Board σ}
    (run : core.Reached b) :
    (if b.cpu.isFlag .thumb then 2 else 4) ∣ b.cpu.pc.toNat ∧
      (if b.cpu.isFlag .thumb then 2 else 4) ∣ b.cpu.nextInstruction.toNat := by
  have haligned := run.aligned hcore
  rw [← toNat_instructionSize]
  exact ⟨haligned, haligned.dvd_nextInstruction⟩

end Core

namespace FlatMemory

/-- No callback of a flat memory touches the processor. -/
theorem fullCore_within (p : Processor) : (fullCore p).Within (· = ·) :=
  ⟨fun _ _ _ => rfl, fun _ _ _ _ => rfl, fun _ _ _ _ => rfl, fun _ _ => rfl, fun _ _ => rfl,
    fun _ _ _ _ => rfl, fun _ _ _ _ _ => rfl⟩

theorem fullCore_within_samePlace (p : Processor) : (fullCore p).Within SamePlace :=
  (fullCore_within p).mono fun _ _ h => h ▸ ⟨rfl, rfl⟩

/-- A processor with short instructions to execute and an interrupt to take. -/
def beforeInterrupt : Board FlatMemory where
  cpu := { cpsr := 0x3F }
  system := { interrupts := { master := true, enabled := 1, raised := 1 } }
  log := {}

/-- The board once a processor that was pointed at an odd address has taken the interrupt. -/
def interruptEntered : Board FlatMemory :=
  ((fullCore .arm9).step { beforeInterrupt with cpu := beforeInterrupt.cpu.startAt 0x103 }).2

/-- The handler is executed by long instructions, aligned to words. -/
theorem pc_stays_aligned_interrupted :
    interruptEntered.cpu.isFlag .thumb = false ∧ 4 ∣ interruptEntered.cpu.pc.toNat ∧
      4 ∣ interruptEntered.cpu.nextInstruction.toNat := by
  have hthumb : interruptEntered.cpu.isFlag .thumb = false := by decide
  have hrun : (fullCore .arm9).Reached interruptEntered := .step (.start beforeInterrupt 0x103)
  have haligned := Core.pc_stays_aligned (fullCore .arm9) (fullCore_within_samePlace .arm9) hrun
  rw [hthumb] at haligned
  exact ⟨hthumb, haligned⟩

end FlatMemory
end Handheld
