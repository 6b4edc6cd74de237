import Handheld.Proofs.Cpu.CallWords
import Handheld.Proofs.Cpu.InterruptReturn

/-!
# Calls and returns

A call leads to an instruction of one of the two sets and leaves the way back in the link register:
the address behind the call, with bit 0 set if the caller executes short instructions. Going to the
address in the link register then resumes the caller in its own set, wherever that is done.
-/

namespace Handheld

open Word MachineM CpuState

open Arm (field)

variable {σ : Type}

/-! ## The instructions -/

/-- What the opcodes of a call are, executed from a state on by a version of the processor: the set
that the caller executes, the opcodes, the address that they lead to, and the set that is executed
there. -/
inductive Call (isV5 : Bool) (s : CpuState) : Bool → List UInt32 → UInt32 → Bool → Prop
  /-- A call within the long set. -/
  | long {w : UInt32} (hholds : s.holds (Arm.condition w) = true)
      (hclass : field w 27 24 = 0b1011) :
      Call isV5 s false [w] (s.nextInstruction + 8 + UInt32.ofInt (4 * Arm.wordOffset w)) false
  /-- A call from the long into the short set. -/
  | longShort {w : UInt32} (hversion : isV5 = true) (hclass : field w 31 25 = 0b1111101) :
      Call isV5 s false [w]
        (s.nextInstruction + 8 + UInt32.ofInt (4 * Arm.wordOffset w + 2 * field w 24 24)) true
  /-- A call of the address in a register. -/
  | longRegister {w : UInt32} {r : Register} (hversion : isV5 = true)
      (hholds : s.holds (Arm.condition w) = true) (hclass : field w 27 20 = 0b00010010)
      (hkind : field w 7 4 = 0b0011) (hregister : field w 3 0 = r.val) (hpc : r ≠ Register.pc) :
      Call isV5 s false [w]
        (Address.alignDown (s.reg r) (if isBit (s.reg r) 0 then 2 else 4)) (isBit (s.reg r) 0)
  /-- A call within the short set. -/
  | short {first second : UInt32} (hfirst : field first 15 11 = 0b11110)
      (hsecond : field second 15 11 = 0b11111) :
      Call isV5 s true [first, second]
        (s.nextInstruction + 4 + UInt32.ofInt (2 * Thumb.halfOffset first second)) true
  /-- A call from the short into the long set. -/
  | shortLong {first second : UInt32} (hversion : isV5 = true)
      (hfirst : field first 15 11 = 0b11110) (hsecond : field second 15 11 = 0b11101) :
      Call isV5 s true [first, second]
        (Address.alignDown
          (s.nextInstruction + 4 + UInt32.ofInt (2 * Thumb.halfOffset first second)) 4) false
  /-- A call of the address in a register. -/
  | shortRegister {w : UInt32} {r : Register} (hversion : isV5 = true)
      (hclass : field w 15 7 = 0b010001111) (hregister : field w 6 3 = r.val)
      (hpc : r ≠ Register.pc) :
      Call isV5 s true [w]
        (Address.alignDown (s.reg r) (if isBit (s.reg r) 0 then 2 else 4)) (isBit (s.reg r) 0)

/-- The opcodes of a set that go to the address in the link register. -/
inductive Return (s : CpuState) : Bool → UInt32 → Prop
  | long {w : UInt32} (hholds : s.holds (Arm.condition w) = true)
      (hclass : field w 27 20 = 0b00010010) (hkind : field w 7 4 = 0b0001)
      (hregister : field w 3 0 = 14) : Return s false w
  | short {w : UInt32} (hclass : field w 15 7 = 0b010001110) (hregister : field w 6 3 = 14) :
      Return s true w

/-- The address of an instruction together with the set that it belongs to, as a register holds
both. -/
def linkTo (short : Bool) (address : UInt32) : UInt32 := if short then address ||| 1 else address

section
variable {address : UInt32}

theorem toNat_or_one (h : 2 ∣ address.toNat) : (address ||| 1).toNat = address.toNat + 1 := by
  obtain ⟨k, hk⟩ := h
  have hone : (1 : ℕ) < 2 ^ 1 := by decide
  have hshift : address.toNat = k <<< 1 := by
    rw [Nat.shiftLeft_eq, hk, Nat.mul_comm, Nat.pow_one]
  rw [UInt32.toNat_or, hshift]
  exact (Nat.shiftLeft_add_eq_or_of_lt hone k).symm

/-- The set of an address is read back. -/
theorem isBit_linkTo {short : Bool} (h : (if short then 2 else 4) ∣ address.toNat) :
    isBit (linkTo short address) 0 = short := by
  rw [isBit_zero, linkTo]
  cases short with
  | false =>
    rw [if_neg Bool.false_ne_true] at h ⊢
    exact decide_eq_false (by omega)
  | true =>
    rw [if_pos rfl] at h ⊢
    rw [toNat_or_one h]
    exact decide_eq_true (by omega)

/-- The address itself is read back by rounding, as it is one of an instruction of its set. -/
theorem alignDown_linkTo {short : Bool} (h : (if short then 2 else 4) ∣ address.toNat) :
    Address.alignDown (linkTo short address) (if short then 2 else 4) = address := by
  cases short with
  | false => exact Address.alignDown_of_dvd (k := 2) rfl h
  | true =>
    have htwo : (2 : UInt32).toNat = 2 ^ 1 := rfl
    have hlink : (linkTo true address).toNat = address.toNat + 1 := toNat_or_one h
    rw [if_pos rfl] at h ⊢
    rw [← UInt32.toNat_inj, Address.toNat_alignDown _ htwo, hlink]
    omega

end

/-- A distance from an address of an instruction leads to one, if it is a multiple of the size. -/
theorem dvd_add_ofInt {address : UInt32} {size : ℕ} {distance : ℤ} (hsize : size = 2 ∨ size = 4)
    (h : size ∣ address.toNat) (hdistance : (size : ℤ) ∣ distance) :
    size ∣ (address + UInt32.ofInt distance).toNat := by
  have hvalue := toNat_ofInt distance
  rw [UInt32.toNat_add]
  obtain rfl | rfl := hsize <;> omega

theorem dvd_behind {address : UInt32} {short : Bool}
    (h : (if short then 2 else 4) ∣ address.toNat) (count : ℕ) :
    (if short then 2 else 4) ∣
      (address + (if short then 2 else 4) * UInt32.ofNat count).toNat := by
  rw [UInt32.toNat_add, UInt32.toNat_mul]
  cases short with
  | false =>
    rw [if_neg Bool.false_ne_true] at h
    show 4 ∣ (address.toNat + 4 * (UInt32.ofNat count).toNat % 2 ^ 32) % 2 ^ 32
    omega
  | true =>
    rw [if_pos rfl] at h
    show 2 ∣ (address.toNat + 2 * (UInt32.ofNat count).toNat % 2 ^ 32) % 2 ^ 32
    omega

/-- The processor is about to execute the instruction at an address in a set, with a value in the
link register. -/
structure CpuState.Entered (t : CpuState) (address : UInt32) (short : Bool) (link : UInt32) :
    Prop where
  next : t.nextInstruction = address
  thumb : t.isFlag .thumb = short
  link : t.reg Register.lr = link

/-! ## Execution -/

namespace Core

variable {core : Core σ}

/-- A step of a running core, in which it takes no interrupt, is about to execute an opcode of an
instruction set. -/
structure Executes (core : Core σ) (b : Board σ) (short : Bool) (opcode : UInt32) : Prop where
  canRun : core.canRun b = true
  calm : core.takesInterrupt b = false
  opcode : core.nextOpcode b = (short, opcode)

/-- A core executes opcodes of one set in a row, which leaves the processor in some state. Between
two steps everything around the processor may change. -/
inductive Executed (core : Core σ) (short : Bool) : Board σ → List UInt32 → CpuState → Prop
  | last {b : Board σ} {opcode : UInt32} (h : core.Executes b short opcode) :
      Executed core short b [opcode] (core.step b).2.cpu
  | step {b c : Board σ} {opcode : UInt32} {opcodes : List UInt32} {t : CpuState}
      (h : core.Executes b short opcode) (hcpu : c.cpu = (core.step b).2.cpu)
      (hrest : Executed core short c opcodes t) : Executed core short b (opcode :: opcodes) t

theorem Executed.executes {short : Bool} {b : Board σ} {opcodes : List UInt32} {t : CpuState}
    (h : core.Executed short b opcodes t) : ∃ opcode, core.Executes b short opcode := by
  cases h with
  | last h => exact ⟨_, h⟩
  | step h => exact ⟨_, h⟩

theorem Executed.eq_of_singleton {short : Bool} {b : Board σ} {opcode : UInt32} {t : CpuState}
    (h : core.Executed short b [opcode] t) :
    core.Executes b short opcode ∧ t = (core.step b).2.cpu := by
  cases h with
  | last h => exact ⟨h, rfl⟩
  | step h hcpu hrest => cases hrest

/-- A machine that executes what was fetched on a board: the program counter is one instruction
further on, and nothing else in view has changed. -/
structure Ready (b : Board σ) (m : Machine σ) : Prop where
  pc : m.cpu.pc = b.cpu.pc + b.cpu.instructionSize
  cpsr : m.cpu.cpsr = b.cpu.cpsr
  reg : ∀ r ≠ Register.pc, m.cpu.reg r = b.cpu.reg r

namespace Ready

variable {b : Board σ} {m : Machine σ} (hm : Ready b m)

include hm

theorem thumb : m.cpu.isFlag .thumb = b.cpu.isFlag .thumb := isFlag_congr hm.cpsr .thumb

/-- The program counter is two instructions ahead of the one that is executed. -/
theorem pc_long (hset : b.cpu.isFlag .thumb = false) :
    m.cpu.pc = b.cpu.nextInstruction + 8 := by
  rw [hm.pc, nextInstruction, instructionSize, hset]
  grind

theorem pc_short (hset : b.cpu.isFlag .thumb = true) :
    m.cpu.pc = b.cpu.nextInstruction + 4 := by
  rw [hm.pc, nextInstruction, instructionSize, hset]
  grind

/-- The way back to the instruction behind the one that is executed. -/
theorem link_long (hset : b.cpu.isFlag .thumb = false) :
    (m.cpu.setReg Register.lr (m.cpu.pc - 4)).reg Register.lr =
      linkTo false (b.cpu.nextInstruction + 4) := by
  have hbehind : m.cpu.pc - 4 = b.cpu.nextInstruction + 4 := by
    rw [hm.pc_long hset]
    grind
  rw [reg_setReg, if_pos rfl, hbehind]
  rfl

theorem link_short (hset : b.cpu.isFlag .thumb = true) :
    (m.cpu.setReg Register.lr ((m.cpu.pc - 2) ||| 1)).reg Register.lr =
      linkTo true (b.cpu.nextInstruction + 2) := by
  have hbehind : m.cpu.pc - 2 = b.cpu.nextInstruction + 2 := by
    rw [hm.pc_short hset]
    grind
  rw [reg_setReg, if_pos rfl, hbehind]
  rfl

end Ready

namespace QuietEntry

variable (hquiet : core.QuietEntry)

include hquiet

theorem ready_fetched (b : Board σ) : Ready b (core.fetched b) := by
  obtain ⟨pipeline, hcpu⟩ := hquiet.fetchNext { toBoard := core.woken b }
  have hfetched : (core.fetched b).cpu = _ := hcpu
  rw [woken_cpu] at hfetched
  refine ⟨?_, ?_, fun r hr => ?_⟩
  · rw [hfetched]
    show (b.cpu.setReg Register.pc _).reg Register.pc = _
    rw [reg_setReg, if_pos rfl]
    rfl
  · rw [hfetched]
    rfl
  · rw [hfetched]
    show (b.cpu.setReg Register.pc _).reg r = _
    rw [reg_setReg, if_neg hr]

/-- The opcode is one of the set that the processor is in. -/
theorem thumb_of_executes {b : Board σ} {short : Bool} {opcode : UInt32}
    (h : core.Executes b short opcode) : b.cpu.isFlag .thumb = short := by
  obtain ⟨pipeline, hready⟩ := hquiet.revalidate { toBoard := core.woken b }
  have hset : (core.nextOpcode b).1 =
      (core.revalidate { toBoard := core.woken b }).2.cpu.isFlag .thumb := rfl
  rw [h.opcode, hready, woken_cpu] at hset
  exact hset.symm

theorem step_long {b : Board σ} {w : UInt32} (h : core.Executes b false w)
    (hdo : ((core.processor.isV5 && Arm.condition w == 15) ||
      b.cpu.holds (Arm.condition w)) = true) :
    ∃ m, Ready b m ∧
      (core.step b).2.cpu = (core.runArm w (Arm.decode core.processor.isV5 w) m).2.cpu := by
  let f := core.fetched b
  have hf : Ready b f := hquiet.ready_fetched b
  have hholds : f.cpu.holds (Arm.condition w) = b.cpu.holds (Arm.condition w) := by
    rw [holds, hf.cpsr, holds]
  refine ⟨core.noted false w f, ⟨hf.pc, hf.cpsr, hf.reg⟩, ?_⟩
  rw [step_of_running h.canRun h.calm, h.opcode]
  show (core.execute false w f).2.cpu = _
  rw [execute_long, hholds, if_pos hdo]

theorem step_short {b : Board σ} {w : UInt32} (h : core.Executes b true w) :
    ∃ m, Ready b m ∧ (core.step b).2.cpu =
      (core.runThumb w.toUInt16 (Thumb.decode core.processor.isV5 w.toUInt16) m).2.cpu := by
  let f := core.fetched b
  have hf : Ready b f := hquiet.ready_fetched b
  refine ⟨core.noted true w f, ⟨hf.pc, hf.cpsr, hf.reg⟩, ?_⟩
  rw [step_of_running h.canRun h.calm, h.opcode]
  rfl

/-! ### Jumps -/

theorem entered_jump (address : UInt32) (m : Machine σ) :
    (core.jump address m).2.cpu.Entered (Address.alignDown address m.cpu.instructionSize)
      (m.cpu.isFlag .thumb) (m.cpu.reg Register.lr) := by
  let target := Address.alignDown address m.cpu.instructionSize
  rw [hquiet.jump]
  refine ⟨?_, rfl, ?_⟩
  · show (m.cpu.setReg Register.pc (target + m.cpu.instructionSize)).reg Register.pc -
      m.cpu.instructionSize = target
    rw [reg_setReg, if_pos rfl, UInt32.add_sub_cancel]
  · show (m.cpu.setReg Register.pc _).reg Register.lr = _
    rw [reg_setReg, if_neg (by decide)]

/-- A jump to an instruction of the current set is not rounded. -/
theorem entered_jump_of_dvd {m : Machine σ} {address link : UInt32} {short : Bool}
    (hset : m.cpu.isFlag .thumb = short) (hlink : m.cpu.reg Register.lr = link)
    (haddress : (if short then 2 else 4) ∣ address.toNat) :
    (core.jump address m).2.cpu.Entered address short link := by
  have hentered := hquiet.entered_jump address m
  obtain ⟨k, -, hsize⟩ := m.cpu.instructionSize_eq_two_pow
  rw [← hset, ← toNat_instructionSize] at haddress
  rw [Address.alignDown_of_dvd hsize haddress, hset, hlink] at hentered
  exact hentered

theorem entered_exchange (address : UInt32) (m : Machine σ) :
    (core.exchange address m).2.cpu.Entered
      (Address.alignDown address (if isBit address 0 then 2 else 4)) (isBit address 0)
      (m.cpu.reg Register.lr) := by
  let s := m.cpu.setFlag .thumb (isBit address 0)
  have hset : s.isFlag .thumb = isBit address 0 :=
    isBit_setBit m.cpu.cpsr (isBit address 0) (by decide) (by decide)
  have hentered : (core.exchange address m).2.cpu.Entered
      (Address.alignDown address s.instructionSize) (s.isFlag .thumb) (s.reg Register.lr) :=
    hquiet.entered_jump address { m with cpu := s }
  rw [instructionSize, hset] at hentered
  exact hentered

/-! ### Calls of the long set -/

section
variable {b : Board σ} {w : UInt32} (h : core.Executes b false w)
include h

theorem entered_long (haligned : 4 ∣ b.cpu.nextInstruction.toNat)
    (hholds : b.cpu.holds (Arm.condition w) = true) (hclass : field w 27 24 = 0b1011) :
    (core.step b).2.cpu.Entered
      (b.cpu.nextInstruction + 8 + UInt32.ofInt (4 * Arm.wordOffset w)) false
      (linkTo false (b.cpu.nextInstruction + 4)) := by
  obtain ⟨m, hm, hstep⟩ := hquiet.step_long h (by rw [hholds, Bool.or_true])
  have hset : b.cpu.isFlag .thumb = false := hquiet.thumb_of_executes h
  have hpc := hm.pc_long hset
  have hskip : UInt32.ofInt 8 = 8 := rfl
  let linked : Machine σ := { m with cpu := m.cpu.setReg Register.lr (m.cpu.pc - 4) }
  have hrun : core.runArm w (.branch (Arm.branchOffset w) true) m =
      core.jump (Address.displace linked.cpu.pc (Arm.branchOffset w)) linked := rfl
  have htarget : Address.displace linked.cpu.pc (Arm.branchOffset w) =
      b.cpu.nextInstruction + 8 + UInt32.ofInt (4 * Arm.wordOffset w) := by
    rw [Address.displace, Arm.toUInt32_branchOffset, pc_setReg _ (by decide), hpc]
  have hlink : linked.cpu.reg Register.lr = linkTo false (b.cpu.nextInstruction + 4) :=
    hm.link_long hset
  rw [hstep, Arm.decode_link (Arm.condition_ne_of_holds hholds) _ hclass, hrun, htarget]
  refine hquiet.entered_jump_of_dvd (hm.thumb.trans hset) hlink ?_
  rw [if_neg Bool.false_ne_true, UInt32.add_assoc, ← hskip, ← UInt32.ofInt_add]
  exact dvd_add_ofInt (.inr rfl) haligned (by omega)

theorem entered_longShort (haligned : 4 ∣ b.cpu.nextInstruction.toNat)
    (hversion : core.processor.isV5 = true) (hclass : field w 31 25 = 0b1111101) :
    (core.step b).2.cpu.Entered
      (b.cpu.nextInstruction + 8 +
        UInt32.ofInt (4 * Arm.wordOffset w + 2 * field w 24 24)) true
      (linkTo false (b.cpu.nextInstruction + 4)) := by
  obtain ⟨hcondition, hdecode⟩ := Arm.decode_callShort hclass
  obtain ⟨m, hm, hstep⟩ := hquiet.step_long h (by rw [hversion, hcondition]; rfl)
  have hset : b.cpu.isFlag .thumb = false := hquiet.thumb_of_executes h
  have hpc := hm.pc_long hset
  have hskip : UInt32.ofInt 8 = 8 := rfl
  let offset := Arm.branchOffset w + if isBit w 24 then 2 else 0
  let linked : Machine σ :=
    { m with cpu := (m.cpu.setReg Register.lr (m.cpu.pc - 4)).setFlag .thumb true }
  have hrun : core.runArm w (.callShort offset) m =
      core.jump (Address.displace m.cpu.pc offset) linked := rfl
  have htarget : Address.displace m.cpu.pc offset =
      b.cpu.nextInstruction + 8 +
        UInt32.ofInt (4 * Arm.wordOffset w + 2 * field w 24 24) := by
    rw [Address.displace, Arm.toUInt32_shortOffset, hpc]
  have hthumb : linked.cpu.isFlag .thumb = true :=
    isBit_setBit m.cpu.cpsr true (by decide) (by decide)
  have hlink : linked.cpu.reg Register.lr = linkTo false (b.cpu.nextInstruction + 4) :=
    hm.link_long hset
  rw [hstep, hversion, hdecode, hrun, htarget]
  refine hquiet.entered_jump_of_dvd hthumb hlink ?_
  rw [if_pos rfl, UInt32.add_assoc, ← hskip, ← UInt32.ofInt_add]
  exact dvd_add_ofInt (.inl rfl) (by omega) (by omega)

theorem entered_longRegister (hversion : core.processor.isV5 = true)
    (hholds : b.cpu.holds (Arm.condition w) = true) (hclass : field w 27 20 = 0b00010010)
    (hkind : field w 7 4 = 0b0011) {r : Register} (hregister : field w 3 0 = r.val)
    (hpc : r ≠ Register.pc) :
    (core.step b).2.cpu.Entered
      (Address.alignDown (b.cpu.reg r) (if isBit (b.cpu.reg r) 0 then 2 else 4))
      (isBit (b.cpu.reg r) 0) (linkTo false (b.cpu.nextInstruction + 4)) := by
  obtain ⟨m, hm, hstep⟩ := hquiet.step_long h (by rw [hholds, Bool.or_true])
  have hset : b.cpu.isFlag .thumb = false := hquiet.thumb_of_executes h
  have hr : Arm.reg w 0 = r := Fin.ext ((Arm.val_reg w rfl (by decide)).trans hregister)
  -- The register is read before the link register is written, so it may be that register.
  let linked : Machine σ := { m with cpu := m.cpu.setReg Register.lr (m.cpu.pc - 4) }
  have hrun : core.runArm w (.callExchange r) m = core.exchange (m.cpu.reg r) linked := rfl
  have hlink : linked.cpu.reg Register.lr = linkTo false (b.cpu.nextInstruction + 4) :=
    hm.link_long hset
  rw [hstep, hversion, Arm.decode_callExchange (Arm.condition_ne_of_holds hholds) hclass hkind, hr,
    hrun, hm.reg r hpc, ← hlink]
  exact hquiet.entered_exchange _ _

end

/-! ### Calls of the short set -/

section
variable {b : Board σ} {w : UInt32} (h : core.Executes b true w)
include h

/-- The first half of a call keeps the upper part of the target. -/
theorem entered_firstHalf (hclass : field w 15 11 = 0b11110) :
    (core.step b).2.cpu.Entered (b.cpu.nextInstruction + 2) true
      (b.cpu.nextInstruction + 4 +
        UInt32.ofInt (2 ^ 12 * (field w 10 0 : ℤ).bmod (2 ^ 11))) := by
  obtain ⟨m, hm, hstep⟩ := hquiet.step_short h
  have hset : b.cpu.isFlag .thumb = true := hquiet.thumb_of_executes h
  have hpc := hm.pc_short hset
  let offset := signExtend11 w.toUInt16 <<< 12
  let kept : CpuState := m.cpu.setReg Register.lr (Address.displace m.cpu.pc offset)
  have hrun : (core.runThumb w.toUInt16 (.prepareCall offset) m).2.cpu = kept := rfl
  have hthumb : kept.isFlag .thumb = true := hm.thumb.trans hset
  have hkept : kept.pc = m.cpu.pc := pc_setReg _ (by decide) _
  rw [hstep, Thumb.decode_prepareCall hclass, hrun]
  refine ⟨?_, hthumb, ?_⟩
  · rw [nextInstruction, instructionSize, hthumb, hkept, hpc]
    grind
  · rw [reg_setReg, if_pos rfl, Address.displace, Thumb.toUInt32_upperOffset, hpc]

/-- The second half adds the lower part and leaves the address behind itself. -/
theorem entered_secondHalf {toShort : Bool}
    (hdecode : Thumb.decode core.processor.isV5 w.toUInt16 =
      .call (Thumb.imm11 w.toUInt16) toShort) {target : UInt32}
    (htarget : b.cpu.reg Register.lr + UInt32.ofInt (2 * field w 10 0) = target)
    (heven : 2 ∣ target.toNat) :
    (core.step b).2.cpu.Entered (if toShort then target else Address.alignDown target 4) toShort
      (linkTo true (b.cpu.nextInstruction + 2)) := by
  obtain ⟨m, hm, hstep⟩ := hquiet.step_short h
  have hset : b.cpu.isFlag .thumb = true := hquiet.thumb_of_executes h
  let linked : CpuState := m.cpu.setReg Register.lr ((m.cpu.pc - 2) ||| 1)
  have hlink : linked.reg Register.lr = linkTo true (b.cpu.nextInstruction + 2) :=
    hm.link_short hset
  have hgoal : m.cpu.reg Register.lr + Thumb.imm11 w.toUInt16 = target := by
    rw [hm.reg _ (by decide), Thumb.imm11_eq, htarget]
  rw [hstep, hdecode]
  cases toShort with
  | true =>
    have hrun : core.runThumb w.toUInt16 (.call (Thumb.imm11 w.toUInt16) true) m =
        core.jump (m.cpu.reg Register.lr + Thumb.imm11 w.toUInt16) { m with cpu := linked } := rfl
    rw [hrun, hgoal]
    exact hquiet.entered_jump_of_dvd (hm.thumb.trans hset) hlink heven
  | false =>
    have hrun : core.runThumb w.toUInt16 (.call (Thumb.imm11 w.toUInt16) false) m =
        core.jump (Address.alignDown (m.cpu.reg Register.lr + Thumb.imm11 w.toUInt16) 4)
          { m with cpu := linked.setFlag .thumb false } := rfl
    have hthumb : (linked.setFlag .thumb false).isFlag .thumb = false :=
      isBit_setBit linked.cpsr false (by decide) (by decide)
    have hfour : (4 : UInt32).toNat = 2 ^ 2 := rfl
    rw [hrun, hgoal]
    refine hquiet.entered_jump_of_dvd hthumb hlink ?_
    rw [if_neg Bool.false_ne_true, Address.toNat_alignDown _ hfour]
    exact Dvd.intro_left _ rfl

theorem entered_shortRegister (hversion : core.processor.isV5 = true)
    (hclass : field w 15 7 = 0b010001111) {r : Register} (hregister : field w 6 3 = r.val)
    (hpc : r ≠ Register.pc) :
    (core.step b).2.cpu.Entered
      (Address.alignDown (b.cpu.reg r) (if isBit (b.cpu.reg r) 0 then 2 else 4))
      (isBit (b.cpu.reg r) 0) (linkTo true (b.cpu.nextInstruction + 2)) := by
  obtain ⟨m, hm, hstep⟩ := hquiet.step_short h
  have hset : b.cpu.isFlag .thumb = true := hquiet.thumb_of_executes h
  have hr : (Thumb.highRegs w.toUInt16).1 = r := Fin.ext ((Thumb.val_highRegs w).trans hregister)
  let linked : Machine σ := { m with cpu := m.cpu.setReg Register.lr ((m.cpu.pc - 2) ||| 1) }
  have hrun : core.runThumb w.toUInt16 (.exchange r true) m =
      core.exchange (m.cpu.reg r) linked := rfl
  have hlink : linked.cpu.reg Register.lr = linkTo true (b.cpu.nextInstruction + 2) :=
    hm.link_short hset
  rw [hstep, hversion, Thumb.decode_callExchange hclass, hr, hrun, hm.reg r hpc, ← hlink]
  exact hquiet.entered_exchange _ _

end

/-- Both halves of a call together. -/
theorem entered_halves {b : Board σ} {first second : UInt32} {t : CpuState}
    (hexecuted : core.Executed true b [first, second] t) (heven : 2 ∣ b.cpu.nextInstruction.toNat)
    (hfirst : field first 15 11 = 0b11110) {toShort : Bool}
    (hdecode : Thumb.decode core.processor.isV5 second.toUInt16 =
      .call (Thumb.imm11 second.toUInt16) toShort) {target : UInt32}
    (htarget : b.cpu.nextInstruction + 4 + UInt32.ofInt (2 * Thumb.halfOffset first second) =
      target) :
    t.Entered (if toShort then target else Address.alignDown target 4) toShort
      (linkTo true (b.cpu.nextInstruction + 4)) := by
  cases hexecuted with
  | @step _ c _ _ _ hexecutes hcpu hrest =>
    obtain ⟨hsecond, rfl⟩ := hrest.eq_of_singleton
    obtain ⟨hnext, -, hupper⟩ := hquiet.entered_firstHalf hexecutes hfirst
    rw [← hcpu] at hnext hupper
    have hsum : c.cpu.reg Register.lr + UInt32.ofInt (2 * field second 10 0) = target := by
      rw [hupper, UInt32.add_assoc, Thumb.ofInt_halves, htarget]
    have hfour : UInt32.ofInt 4 = 4 := rfl
    have htwo : 2 ∣ target.toNat := by
      rw [← htarget, UInt32.add_assoc, ← hfour, ← UInt32.ofInt_add]
      exact dvd_add_ofInt (.inl rfl) heven (by omega)
    have hentered := hquiet.entered_secondHalf hsecond hdecode hsum htwo
    have hbehind : c.cpu.nextInstruction + 2 = b.cpu.nextInstruction + 4 := by
      rw [hnext]
      grind
    rw [hbehind] at hentered
    exact hentered

/-! ### There and back -/

/-- A call leads to its target and leaves the way back to the address behind it. -/
theorem entered_call {b : Board σ} {short toShort : Bool} {opcodes : List UInt32} {target : UInt32}
    {t : CpuState} (haligned : (if short then 2 else 4) ∣ b.cpu.nextInstruction.toNat)
    (hcall : Call core.processor.isV5 b.cpu short opcodes target toShort)
    (hexecuted : core.Executed short b opcodes t) :
    t.Entered target toShort (linkTo short
      (b.cpu.nextInstruction + (if short then 2 else 4) * UInt32.ofNat opcodes.length)) := by
  cases hcall with
  | long hholds hclass =>
    obtain ⟨hexecutes, rfl⟩ := hexecuted.eq_of_singleton
    exact hquiet.entered_long hexecutes haligned hholds hclass
  | longShort hversion hclass =>
    obtain ⟨hexecutes, rfl⟩ := hexecuted.eq_of_singleton
    exact hquiet.entered_longShort hexecutes haligned hversion hclass
  | longRegister hversion hholds hclass hkind hregister hpc =>
    obtain ⟨hexecutes, rfl⟩ := hexecuted.eq_of_singleton
    exact hquiet.entered_longRegister hexecutes hversion hholds hclass hkind hregister hpc
  | short hfirst hsecond =>
    exact hquiet.entered_halves hexecuted haligned hfirst (Thumb.decode_call hsecond _) rfl
  | shortLong hversion hfirst hsecond =>
    have hdecode := Thumb.decode_callLong hsecond
    rw [← hversion] at hdecode
    exact hquiet.entered_halves hexecuted haligned hfirst hdecode rfl
  | shortRegister hversion hclass hregister hpc =>
    obtain ⟨hexecutes, rfl⟩ := hexecuted.eq_of_singleton
    exact hquiet.entered_shortRegister hexecutes hversion hclass hregister hpc

/-- A return goes to the address in the link register. -/
theorem entered_return {d : Board σ} {short : Bool} {w : UInt32} (hreturn : Return d.cpu short w)
    (h : core.Executes d short w) :
    let link := d.cpu.reg Register.lr
    (core.step d).2.cpu.Entered (Address.alignDown link (if isBit link 0 then 2 else 4))
      (isBit link 0) link := by
  intro link
  cases hreturn with
  | long hholds hclass hkind hregister =>
    obtain ⟨m, hm, hstep⟩ := hquiet.step_long h (by rw [hholds, Bool.or_true])
    have hr : Arm.reg w 0 = Register.lr :=
      Fin.ext ((Arm.val_reg w rfl (by decide)).trans hregister)
    have hrun : core.runArm w (.exchange Register.lr) m =
        core.exchange (m.cpu.reg Register.lr) m := rfl
    have hlink : m.cpu.reg Register.lr = link := hm.reg _ (by decide)
    rw [hstep, Arm.decode_exchange (Arm.condition_ne_of_holds hholds) _ hclass hkind, hr, hrun]
    have hentered := hquiet.entered_exchange (m.cpu.reg Register.lr) m
    rw [hlink] at hentered ⊢
    exact hentered
  | short hclass hregister =>
    obtain ⟨m, hm, hstep⟩ := hquiet.step_short h
    have hr : (Thumb.highRegs w.toUInt16).1 = Register.lr :=
      Fin.ext ((Thumb.val_highRegs w).trans hregister)
    have hrun : core.runThumb w.toUInt16 (.exchange Register.lr false) m =
        core.exchange (m.cpu.reg Register.lr) m := rfl
    have hlink : m.cpu.reg Register.lr = link := hm.reg _ (by decide)
    rw [hstep, Thumb.decode_exchange hclass, hr, hrun]
    have hentered := hquiet.entered_exchange (m.cpu.reg Register.lr) m
    rw [hlink] at hentered ⊢
    exact hentered

end QuietEntry

/-- **Calls return.** Of either version, a call that is executed at an address of its instruction
set leads to its target: the address that its offset names, as the two sets count from a program
counter that runs ahead, or the one that a register held before the call, rounded to the set that
its bit 0 names. Whatever is executed then, going to the address in the link register, if that
register is as the call left it, resumes behind the call and in the instruction set of the
caller. -/
theorem calls_return (core : Core σ) (hquiet : core.QuietEntry) {b : Board σ}
    (haligned : b.cpu.instructionSize.toNat ∣ b.cpu.nextInstruction.toNat) {short toShort : Bool}
    {opcodes : List UInt32} {target : UInt32}
    (hcall : Call core.processor.isV5 b.cpu short opcodes target toShort) {t : CpuState}
    (hexecuted : core.Executed short b opcodes t) :
    t.nextInstruction = target ∧ t.isFlag .thumb = toShort ∧
      ∀ (d : Board σ) (set : Bool) (w : UInt32), d.cpu.reg Register.lr = t.reg Register.lr →
        Return d.cpu set w → core.Executes d set w →
        let back := (core.step d).2.cpu
        back.nextInstruction =
          b.cpu.nextInstruction + b.cpu.instructionSize * UInt32.ofNat opcodes.length ∧
        back.isFlag .thumb = b.cpu.isFlag .thumb := by
  obtain ⟨opcode, hexecutes⟩ := hexecuted.executes
  have hset : b.cpu.isFlag .thumb = short := hquiet.thumb_of_executes hexecutes
  rw [toNat_instructionSize, hset] at haligned
  obtain ⟨hnext, hthumb, hlink⟩ := hquiet.entered_call haligned hcall hexecuted
  refine ⟨hnext, hthumb, fun d set w hkept hreturn hreturns => ?_⟩
  intro back
  let behind := b.cpu.nextInstruction +
    (if short then 2 else 4) * UInt32.ofNat opcodes.length
  have hbehind : (if short then 2 else 4) ∣ behind.toNat := dvd_behind haligned opcodes.length
  obtain ⟨hnextBack, hthumbBack, -⟩ := hquiet.entered_return hreturn hreturns
  rw [hkept, hlink] at hnextBack hthumbBack
  rw [isBit_linkTo hbehind] at hnextBack hthumbBack
  rw [alignDown_linkTo hbehind] at hnextBack
  rw [instructionSize, hset]
  exact ⟨hnextBack, hthumbBack⟩

end Core

namespace FlatMemory

/-- A processor about to call long instructions in two halves from near the start of the memory. -/
def beforeCall : Board FlatMemory where
  cpu := { ({ cpsr := 0x3F } : CpuState).startAt 0x100 with
    pipeline := #v[0xF7FF, 0xE801], pipelineValid := true }
  system := {}
  log := {}

/-- The board after the first half. -/
def midCall : Board FlatMemory := ((fullCore .arm9).step beforeCall).2

/-- The board after both halves. -/
def called : Board FlatMemory := ((fullCore .arm9).step midCall).2

/-- The board once the callee is about to return. -/
def calleeDone : Board FlatMemory :=
  { called with cpu := { called.cpu with pipeline := #v[0xE12FFF1E, 0], pipelineValid := true } }

/-- The target is before the start of the memory, and so at its end, and is rounded to a word. -/
theorem calls_return_wrapped :
    called.cpu.nextInstruction = 0xFFFFF104 ∧ called.cpu.isFlag .thumb = false ∧
      let back := ((fullCore .arm9).step calleeDone).2.cpu
      back.nextInstruction = 0x104 ∧ back.isFlag .thumb = true := by
  have hcall : Call true beforeCall.cpu true [0xF7FF, 0xE801] _ _ :=
    .shortLong rfl (by decide) (by decide)
  have hexecuted : (fullCore .arm9).Executed true beforeCall [0xF7FF, 0xE801] called.cpu :=
    .step (c := midCall) ⟨by decide, by decide, by decide⟩ rfl
      (.last ⟨by decide, by decide, by decide⟩)
  obtain ⟨hnext, hthumb, hreturn⟩ := Core.calls_return (fullCore .arm9)
    (fullCore_quietEntry .arm9) (by decide) hcall hexecuted
  obtain ⟨hback, hset⟩ := hreturn calleeDone false 0xE12FFF1E (by decide)
    (.long (by decide) (by decide) (by decide) (by decide)) ⟨by decide, by decide, by decide⟩
  exact ⟨hnext.trans (by decide), hthumb, hback.trans (by decide), hset⟩

end FlatMemory
end Handheld
