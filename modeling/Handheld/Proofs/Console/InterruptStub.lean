import Handheld.Proofs.Console.RamWords
import Handheld.Proofs.Cpu.SoftwareInterrupt
import Handheld.Proofs.Cpu.StraightCode

/-!
# The firmware's interrupt handler

An interrupt that finds the stub at the processor's vectors is handled by a straight piece of code.
It saves the registers that a call may change on the stack of the interrupt mode, finds the
handler of the program through a pointer, calls it, loads the registers again and returns. The
lemmas follow this code word by word; `interrupt_stub_transparent` puts them together for a handler
that returns at once.
-/

namespace Handheld.Console

open Word CpuState MachineM Handheld.Core

/-! ## Places -/

/-- The registers that a call may change, apart from the program counter. -/
def callerSaved : List Register := [0, 1, 2, 3, 12, 14]

theorem ofSet_callerSaved : Register.ofSet 0x500F = callerSaved := by decide

/-- Where the program leaves the address of its handler: at the end of the companion processor's
work memory, and 16 KiB above the base of the main processor's data memory. -/
def handlerPointer (s : System) : Processor → UInt32
  | .arm7 => 0x0380FFFC
  | .arm9 => Address.alignDown s.control.tcmControl.first 0x1000 + 0x3FFC

/-- What the stub has in r0 when it loads the pointer from below. -/
def pointerEnd (s : System) : Processor → UInt32
  | .arm7 => 0x04000000
  | .arm9 => Address.alignDown s.control.tcmControl.first 0x1000 + 0x4000

/-- Where the stub loads the pointer from. The companion processor's stub uses a mirror. -/
def pointerPlace (s : System) : Processor → UInt32
  | .arm7 => 0x03FFFFFC
  | .arm9 => handlerPointer s .arm9

theorem pointerEnd_sub (s : System) (p : Processor) : pointerEnd s p - 4 = pointerPlace s p := by
  cases p with
  | arm7 =>
    show (0x04000000 - 4 : UInt32) = 0x03FFFFFC
    decide
  | arm9 =>
    show Address.alignDown s.control.tcmControl.first 0x1000 + 0x4000 - 4 = _ + 0x3FFC
    rw [UInt32.sub_eq_add_neg, UInt32.add_assoc]
    rfl

theorem pointerPlace_aligned (s : System) (p : Processor) : pointerPlace s p &&& 3 = 0 := by
  cases p with
  | arm7 =>
    show (0x03FFFFFC &&& 3 : UInt32) = 0
    decide
  | arm9 =>
    let first := s.control.tcmControl.first
    have hbase : (Address.alignDown first 0x1000).toNat = first.toNat / 2 ^ 12 * 2 ^ 12 :=
      Address.toNat_alignDown first rfl
    -- The base is a multiple of 4 KiB, and so of 4 when the sum wraps around.
    have hmod : (pointerPlace s .arm9).toNat % 4 = 0 := by
      show (Address.alignDown first 0x1000 + 0x3FFC).toNat % 4 = 0
      rw [UInt32.toNat_add, hbase]
      show (_ + 0x3FFC) % 2 ^ 32 % 4 = 0
      omega
    rw [← UInt32.toNat_inj, UInt32.toNat_and]
    exact (Nat.and_two_pow_sub_one_eq_mod _ 2).trans hmod

theorem stored_pointerPlace (p : Processor) (s : System) :
    stored p s .word (pointerPlace s p) = stored p s .word (handlerPointer s p) := by
  cases p with
  | arm7 =>
    let cell : Cell := ⟨.work, 0xFFFC, by decide, by decide⟩
    have hplace : s.target .arm7 (Address.alignDown (pointerPlace s .arm7) 4) false =
        cell.target := by
      show busTarget .arm7 (Address.alignDown 0x03FFFFFC 4) = .memory .work 0xFFFC
      decide
    have hpointer : s.target .arm7 (Address.alignDown (handlerPointer s .arm7) 4) false =
        cell.target := by
      show busTarget .arm7 (Address.alignDown 0x0380FFFC 4) = .memory .work 0xFFFC
      decide
    rw [stored_of_target hplace, stored_of_target hpointer]
  | arm9 => rfl

/-- A word that is shifted out and in again loses its lowest bits. -/
theorem shift_twelve (x : UInt32) : (x >>> 12) <<< 12 = Address.alignDown x 0x1000 := by
  have hshift : ((x >>> 12) <<< 12).toNat = x.toNat >>> 12 <<< 12 % 2 ^ 32 := by
    rw [UInt32.toNat_shiftLeft, UInt32.toNat_shiftRight]
    rfl
  rw [← UInt32.toNat_inj, hshift, Address.toNat_alignDown (k := 12) x rfl, Nat.shiftLeft_eq,
    Nat.shiftRight_eq_div_pow]
  have hlt := x.toNat_lt
  omega

variable {p : Processor} {s : CpuState} {file : PhysicalRegister → UInt32} {system : System}
  {c : Board System} {m : Machine System}

/-- A board before a word of the stub. -/
abbrev AtStub (p : Processor) (s : CpuState) (file : PhysicalRegister → UInt32) (system : System)
    (i : Nat) (c : Board System) : Prop :=
  Before (stored p) s file system (stubWord p system i) c

theorem four_dvd_stubWord (p : Processor) (system : System) {i : Nat} (hi : i < 16) :
    4 ∣ (stubWord p system i).toNat := by
  rw [← alignDown_stubWord p system hi]
  exact four_dvd_alignDown _

theorem stubWord_add_two (p : Processor) (system : System) (i : Nat) :
    stubWord p system (i + 2) = stubWord p system i + 8 := by
  rw [stubWord_succ p system (i + 1), stubWord_succ, UInt32.add_assoc]
  rfl

/-- The step from a word of the stub on. -/
theorem StubMapped.during (hstub : StubMapped p system) (hs : s.Masked) {i : Nat}
    (hi : i < (Firmware.stub p).size) (hc : AtStub p s file system i c) (word : UInt32)
    (hword : (Firmware.stub p)[i] = word) (halways : Arm.condition word = 14) :
    ∃ m, During (stored p) s file system (stubWord p system i) m ∧ ((core p).step c).2 =
      ((core p).runArm word (Arm.decode (core p).processor.isV5 word) m).2.toBoard :=
  (core_looking p).during hs hc ((hstub.stored_word hi).trans hword) halways

/-- The step of a word that does no more than write a register. -/
theorem StubMapped.putReg (hstub : StubMapped p system) (hs : s.Masked) {i : Nat}
    (hi : i < (Firmware.stub p).size) (hc : AtStub p s file system i c) (word : UInt32)
    (hword : (Firmware.stub p)[i] = word) (halways : Arm.condition word = 14)
    {inst : Arm.Instruction} (hdecode : Arm.decode (core p).processor.isV5 word = inst)
    {r : Register} (hr : r ≠ Register.pc) {value : UInt32}
    (hrun : ∀ m, During (stored p) s file system (stubWord p system i) m →
      ((core p).runArm word inst m).2.cpu = m.cpu.setReg r value ∧
        ((core p).runArm word inst m).2.system = m.system) :
    AtStub p s (Function.update file (r.physical s.mode) value) system (i + 1)
      ((core p).step c).2 := by
  obtain ⟨m, hm, hstep⟩ := hstub.during hs hi hc word hword halways
  obtain ⟨hcpu, hsystem⟩ := hrun m hm
  rw [hstep, hdecode]
  have hnext := hm.before_putReg hs hr hcpu hsystem
  rwa [← stubWord_succ] at hnext

/-- The step of a word that makes a new value of a register from the one that it was given last. -/
theorem StubMapped.transform (hstub : StubMapped p system) (hs : s.Masked) {i : Nat}
    (hi : i < (Firmware.stub p).size) {r : Register} (hr : r ≠ Register.pc) {old value : UInt32}
    (hc : AtStub p s (Function.update file (r.physical s.mode) old) system i c) (word : UInt32)
    (hword : (Firmware.stub p)[i] = word) (halways : Arm.condition word = 14)
    {inst : Arm.Instruction} (hdecode : Arm.decode (core p).processor.isV5 word = inst)
    (hrun : ∀ m : Machine System, m.cpu.reg r = old →
      ((core p).runArm word inst m).2.cpu = m.cpu.setReg r value ∧
        ((core p).runArm word inst m).2.system = m.system) :
    AtStub p s (Function.update file (r.physical s.mode) value) system (i + 1)
      ((core p).step c).2 := by
  have hnext := hstub.putReg hs hi hc word hword halways hdecode hr
    fun m hm => hrun m (hm.reg_update hr)
  rwa [Function.update_idem] at hnext

theorem stubWord_withMemory (p : Processor) (system : System) (memory : Memory) (i : Nat) :
    stubWord p { system with memory } i = stubWord p system i :=
  stubWord_congr (s := system) (t := { system with memory }) p rfl i

theorem StubMapped.withMemory (hstub : StubMapped p system) (memory : Memory) :
    StubMapped p { system with memory } :=
  hstub.congr (t := { system with memory }) rfl

/-- Stores to memory do not reach the stub. -/
theorem StubMapped.stored_withMemory (hstub : StubMapped p system) (memory : Memory) {i : Nat}
    (hi : i < (Firmware.stub p).size) :
    stored p { system with memory } .word (stubWord p system i) =
      stored p system .word (stubWord p system i) := by
  rw [hstub.stored_word hi, ← stubWord_withMemory p system memory]
  exact (hstub.withMemory memory).stored_word hi

/-! ## Saving the registers -/

theorem decode_push (p : Processor) : Arm.decode (core p).processor.isV5 0xE92D500F =
    .blockTransfer Register.sp 0x500F false ⟨true, false, false, true⟩ := by
  cases p <;> decide

theorem decode_pop (p : Processor) : Arm.decode (core p).processor.isV5 0xE8BD500F =
    .blockTransfer Register.sp 0x500F false ⟨false, true, true, true⟩ := by
  cases p <;> decide

theorem plain_callerSaved : ∀ r ∈ callerSaved, r ≠ Register.sp ∧ r ≠ Register.pc := by decide

/-- What `stmdb sp!, {r0-r3, r12, lr}` does where cells lie below the stack pointer. -/
theorem blockTransfer_pushing {cells : List Cell} (hcount : cells.length = 6)
    (hsettled : m.system.control.Settled)
    (hram : RamFrom p m.system (m.cpu.reg Register.sp - 24) cells) :
    let t := ((core p).blockTransfer Register.sp 0x500F pushing m).2
    t.cpu = settled true Register.sp (m.cpu.reg Register.sp - 24) m.cpu ∧
      t.system = { m.system with
        memory := m.system.memory.setWords cells (callerSaved.map m.cpu.reg) } := by
  have hmoves : pushing.movesBase (core p).processor.isV5 Register.sp callerSaved = true := by
    cases p <;> rfl
  have hbase : pushing.newBase (m.cpu.reg Register.sp) callerSaved.length =
      m.cpu.reg Register.sp - 24 := rfl
  have hlowest : pushing.lowest (m.cpu.reg Register.sp) callerSaved.length =
      m.cpu.reg Register.sp - 24 := rfl
  have huser : pushing.userBank callerSaved = false := rfl
  have hblock := (core p).blockTransfer_of_store (n := Register.sp) (t := pushing)
    (by decide : Register.ofSet 0x500F ≠ []) rfl m
  simp only [ofSet_callerSaved, hmoves, hbase, hlowest, huser] at hblock
  have hlength : callerSaved.length = cells.length := hcount.symm
  obtain ⟨hcpu, hsystem⟩ := storeBlock_ram
    ((core p).storedValue Register.sp callerSaved.head? (m.cpu.reg Register.sp - 24) false)
    hlength Access.nonSequential hsettled hram
  have hvalues : (callerSaved.map fun r => (core p).storedValue Register.sp callerSaved.head?
      (m.cpu.reg Register.sp - 24) false r m.cpu) = callerSaved.map m.cpu.reg := by
    refine List.map_congr_left fun r hr => ?_
    obtain ⟨hsp, hpc⟩ := plain_callerSaved r hr
    unfold storedValue
    rw [if_neg hpc, decide_eq_false hsp]
    rfl
  rw [hvalues] at hsystem
  generalize ((core p).storeBlock _ callerSaved _ Access.nonSequential m).2 = blocked
    at hblock hcpu hsystem
  have hrun : ((core p).blockTransfer Register.sp 0x500F pushing m).2.toBoard =
      { blocked.toBoard with
        cpu := settled true Register.sp (m.cpu.reg Register.sp - 24) blocked.cpu } := by
    rw [hblock]
    exact finishTransfer_none ..
  rw [hcpu] at hrun
  exact ⟨congrArg Board.cpu hrun, (congrArg Board.system hrun).trans hsystem⟩

/-- What is stored for each register. -/
def savedWords (s : CpuState) (file : PhysicalRegister → UInt32) : List UInt32 :=
  callerSaved.map fun r => file (r.physical s.mode)

theorem savedWords_eq (hm : During (stored p) s file system (stubWord p system 6) m) :
    callerSaved.map m.cpu.reg = savedWords s file := by
  refine List.map_congr_left fun r hr => hm.reg ?_
  exact (plain_callerSaved r hr).2

/-- `stmdb sp!, {r0-r3, r12, lr}` -/
theorem StubMapped.save (hstub : StubMapped p system) (hs : s.Masked)
    (hsettled : system.control.Settled) {cells : List Cell} (hcount : cells.length = 6)
    (hram : RamFrom p system (file (Register.sp.physical s.mode) - 24) cells)
    (hc : AtStub p s file system 6 c) :
    AtStub p s
      (Function.update file (Register.sp.physical s.mode)
        (file (Register.sp.physical s.mode) - 24))
      { system with memory := system.memory.setWords cells (savedWords s file) } 7
      ((core p).step c).2 := by
  have hlong : 12 ≤ (Firmware.stub p).size := by cases p <;> decide
  have hword : (Firmware.stub p)[6] = 0xE92D500F := by cases p <;> rfl
  obtain ⟨m, hm, hstep⟩ := hstub.during hs (by omega) hc 0xE92D500F hword rfl
  have hbase : m.cpu.reg Register.sp = file (Register.sp.physical s.mode) := hm.reg (by decide)
  have haround : m.system = system := hm.around
  obtain ⟨hcpu, hsystem⟩ := blockTransfer_pushing (p := p) (m := m) hcount (haround ▸ hsettled)
    (by rwa [haround, hbase])
  have hrun : ((core p).step c).2 =
      ((core p).blockTransfer Register.sp 0x500F pushing m).2.toBoard := by
    have hexecute : (core p).runArm 0xE92D500F
        (.blockTransfer Register.sp 0x500F false ⟨true, false, false, true⟩) m =
          (core p).blockTransfer Register.sp 0x500F pushing m := rfl
    rw [hstep, decode_push, hexecute]
  -- The next two words were fetched before the stores, and are the stub's whatever was stored.
  have hnext : ∀ memory, stored p { system with memory } .word (stubWord p system 6 + 4) =
      stored p system .word (stubWord p system 6 + 4) := by
    rw [← stubWord_succ]
    exact fun memory => hstub.stored_withMemory memory (by omega)
  have hsecond : ∀ memory, stored p { system with memory } .word (stubWord p system 6 + 8) =
      stored p system .word (stubWord p system 6 + 8) := by
    rw [← stubWord_add_two]
    exact fun memory => hstub.stored_withMemory memory (by omega)
  rw [hrun, ← hbase, ← savedWords_eq hm]
  rw [haround] at hsystem
  have hbefore := hm.before_setReg (r := Register.sp) hs (by decide) hcpu hsystem (hnext _)
    (hsecond _)
  rw [← stubWord_succ] at hbefore
  unfold AtStub
  rwa [stubWord_withMemory]

/-! ## Finding the handler -/

/-- The board after a number of steps. -/
def ran (p : Processor) (count : Nat) (b : Board System) : Board System :=
  (fun b => ((core p).step b).2)^[count] b

/-- The number of the word that leaves the way back in the link register. Before it, r0 is set
up to find the pointer below it. -/
def linkWord : Processor → Nat
  | .arm7 => 8
  | .arm9 => 11

/-- The companion processor knows where its work memory ends. -/
theorem aim_arm7 (hs : s.Masked) (hc : AtStub .arm7 s file system 7 c) :
    AtStub .arm7 s (Function.update file (.low 0) (pointerEnd system .arm7)) system 8
      ((core .arm7).step c).2 := by
  have hdecode : Arm.decode (core .arm7).processor.isV5 0xE3A00301 =
      .alu .mov false 0 0 (.immediate 1 6) := by decide
  exact (stubMapped_arm7 system).putReg hs (by decide) hc 0xE3A00301 rfl rfl hdecode (r := 0)
    (by decide) fun m _ => ⟨rfl, rfl⟩

/-- The main processor asks its control coprocessor for the base of the data memory. -/
theorem aim_arm9 (hstub : StubMapped .arm9 system) (hs : s.Masked)
    (hc : AtStub .arm9 s file system 7 c) :
    AtStub .arm9 s (Function.update file (.low 0) (pointerEnd system .arm9)) system 11
      (ran .arm9 4 c) := by
  let first := system.control.tcmControl.first
  have hread : Arm.decode (core .arm9).processor.isV5 0xEE190F11 = .readCoprocessor
      { opc := 0, cn := 9, d := 0, pn := 15, cp := 0, cm := 1 } := by decide
  have hright : Arm.decode (core .arm9).processor.isV5 0xE1A00620 =
      .alu .mov false 0 0 (.shiftedImmediate 0 .lsr 12) := by decide
  have hleft : Arm.decode (core .arm9).processor.isV5 0xE1A00600 =
      .alu .mov false 0 0 (.shiftedImmediate 0 .lsl 12) := by decide
  have hadd : Arm.decode (core .arm9).processor.isV5 0xE2800901 =
      .alu .add false 0 0 (.immediate 1 18) := by decide
  have h8 : AtStub .arm9 s (Function.update file (.low 0) first) system 8 (ran .arm9 1 c) := by
    refine hstub.putReg hs (by decide) hc 0xEE190F11 rfl rfl hread (r := 0) (by decide)
      fun m hm => ⟨?_, rfl⟩
    have hfirst : first = m.system.control.tcmControl.first := by rw [hm.around]
    rw [hfirst]
    rfl
  have h9 : AtStub .arm9 s (Function.update file (.low 0) (first >>> 12)) system 9
      (ran .arm9 2 c) :=
    hstub.transform hs (by decide) (r := 0) (by decide) h8 0xE1A00620 rfl rfl hright
      fun m hold => ⟨by rw [← hold]; rfl, rfl⟩
  have h10 : AtStub .arm9 s (Function.update file (.low 0) ((first >>> 12) <<< 12)) system 10
      (ran .arm9 3 c) :=
    hstub.transform hs (by decide) (r := 0) (by decide) h9 0xE1A00600 rfl rfl hleft
      fun m hold => ⟨by rw [← hold]; rfl, rfl⟩
  have h11 : AtStub .arm9 s (Function.update file (.low 0) ((first >>> 12) <<< 12 + 0x4000))
      system 11 (ran .arm9 4 c) :=
    hstub.transform hs (by decide) (r := 0) (by decide) h10 0xE2800901 rfl rfl hadd
      fun m hold => ⟨by rw [← hold]; rfl, rfl⟩
  -- The two shifts clear what the register holds below the base.
  rwa [shift_twelve] at h11

/-- Either way, r0 ends behind the pointer. -/
theorem StubMapped.aim (hstub : StubMapped p system) (hs : s.Masked)
    (hc : AtStub p s file system 7 c) :
    AtStub p s (Function.update file (.low 0) (pointerEnd system p)) system (linkWord p)
      (ran p (linkWord p - 7) c) := by
  cases p with
  | arm7 => exact aim_arm7 hs hc
  | arm9 => exact aim_arm9 hstub hs hc

/-! ## The call and the way back -/

theorem size_stub (p : Processor) : (Firmware.stub p).size = linkWord p + 4 := by cases p <;> rfl

/-- `add lr, pc, #0` -/
theorem StubMapped.link (hstub : StubMapped p system) (hs : s.Masked)
    (hc : AtStub p s file system (linkWord p) c) :
    AtStub p s
      (Function.update file (Register.lr.physical s.mode) (stubWord p system (linkWord p + 2)))
      system (linkWord p + 1) ((core p).step c).2 := by
  have hi : linkWord p < (Firmware.stub p).size := by rw [size_stub]; omega
  have hword : (Firmware.stub p)[linkWord p] = 0xE28FE000 := by cases p <;> rfl
  have hdecode : Arm.decode (core p).processor.isV5 0xE28FE000 =
      .alu .add false Register.pc Register.lr (.immediate 0 0) := by cases p <;> decide
  refine hstub.putReg hs hi hc 0xE28FE000 hword rfl hdecode (by decide) fun m hm => ⟨?_, rfl⟩
  have hvalue : stubWord p system (linkWord p + 2) = m.cpu.pc + 0 := by
    rw [stubWord_add_two, hm.pc, UInt32.add_zero]
  rw [hvalue]
  rfl

/-- `ldr pc, [r0, #-4]` -/
theorem StubMapped.follow (hstub : StubMapped p system) (hs : s.Masked)
    (hc : AtStub p s file system (linkWord p + 1) c) (haim : file (.low 0) = pointerEnd system p)
    {handler : UInt32} (hpointer : stored p system .word (handlerPointer system p) = handler)
    (haligned : 4 ∣ handler.toNat) :
    Before (stored p) s file system handler ((core p).step c).2 := by
  have hi : linkWord p + 1 < (Firmware.stub p).size := by rw [size_stub]; omega
  have hword : (Firmware.stub p)[linkWord p + 1] = 0xE510F004 := by cases p <;> rfl
  have hdecode : Arm.decode (core p).processor.isV5 0xE510F004 =
      .transfer 0 Register.pc (.immediate 4) ⟨true, false, .loadWord, false⟩ := by
    cases p <;> decide
  obtain ⟨m, hm, hstep⟩ := hstub.during hs hi hc 0xE510F004 hword rfl
  have hplace : m.cpu.reg 0 - 4 = pointerPlace system p := by
    rw [hm.reg (r := 0) (by decide), ← pointerEnd_sub, ← haim]
    rfl
  let loaded := (core p).load .word (m.cpu.reg 0 - 4) Access.nonSequential m
  have hvalue : loaded.1 = handler := by
    refine ((core_looking p).load_word ..).1.trans ?_
    rw [hm.around, hplace, stored_pointerPlace, hpointer]
  have hrotated : rotateRight loaded.1 ((m.cpu.reg 0 - 4 &&& 3) <<< 3) = handler := by
    rw [hplace, pointerPlace_aligned, hvalue]
    exact rotateRight_zero handler
  have hrun : ((core p).runArm 0xE510F004
      (.transfer 0 Register.pc (.immediate 4) ⟨true, false, .loadWord, false⟩) m).2 =
        (idle ((core p).setLoaded Register.pc
          (rotateRight loaded.1 ((m.cpu.reg 0 - 4 &&& 3) <<< 3)) loaded.2).2).2 := rfl
  have hfollowed := (core_looking p).before_setLoaded hs
    ((core_looking p).during_load hm (m.cpu.reg 0 - 4) Access.nonSequential) haligned
  rw [hstep, hdecode, hrun, hrotated]
  exact hfollowed.withAccess rfl rfl

/-- A handler that is nothing but `bx lr`. -/
theorem handler_returns (hs : s.Masked) {handler : UInt32}
    (hc : Before (stored p) s file system handler c)
    (hword : stored p system .word handler = 0xE12FFF1E)
    (haligned : 4 ∣ (file (Register.lr.physical s.mode)).toNat) :
    Before (stored p) s file system (file (Register.lr.physical s.mode))
      ((core p).step c).2 := by
  have hdecode : Arm.decode (core p).processor.isV5 0xE12FFF1E = .exchange Register.lr := by
    cases p <;> decide
  obtain ⟨m, hm, hstep⟩ := (core_looking p).during hs hc hword rfl
  have hrun : (core p).runArm 0xE12FFF1E (.exchange Register.lr) m =
      (core p).exchange (m.cpu.reg Register.lr) m := rfl
  rw [hstep, hdecode, hrun, hm.reg (by decide)]
  exact (core_looking p).before_exchange hs hm haligned

/-- What `ldmia sp!, {r0-r3, r12, lr}` does where the stack pointer leads to the words. -/
theorem blockTransfer_popping (value : Register → UInt32)
    (hwords : ∀ k (hk : k < callerSaved.length),
      stored p m.system .word (m.cpu.reg Register.sp + 4 * UInt32.ofNat k) =
        value callerSaved[k]) :
    let t := ((core p).blockTransfer Register.sp 0x500F (ascending true) m).2
    t.cpu = settled true Register.sp (m.cpu.reg Register.sp + 24)
        (m.cpu.setAll value callerSaved) ∧
      t.system = m.system := by
  have hmoves : (ascending true).movesBase (core p).processor.isV5 Register.sp callerSaved =
      true := by
    cases p <;> rfl
  have hbase : (ascending true).newBase (m.cpu.reg Register.sp) callerSaved.length =
      m.cpu.reg Register.sp + 24 := rfl
  have hlowest : (ascending true).lowest (m.cpu.reg Register.sp) callerSaved.length =
      m.cpu.reg Register.sp := rfl
  have huser : (ascending true).userBank callerSaved = false := rfl
  have hblock := (core p).blockTransfer_of_load (n := Register.sp) (t := ascending true)
    (by decide : Register.ofSet 0x500F ≠ []) rfl m
  simp only [ofSet_callerSaved, hmoves, hbase, hlowest, huser] at hblock
  obtain ⟨hnone, hcpu, hsystem⟩ := (core_looking p).loadBlock
    (by decide : Register.pc ∉ callerSaved) Access.nonSequential m hwords
  generalize (core p).loadBlock false callerSaved (m.cpu.reg Register.sp) Access.nonSequential m =
    loaded at hblock hnone hcpu hsystem
  have hrun : ((core p).blockTransfer Register.sp 0x500F (ascending true) m).2.toBoard =
      { loaded.2.toBoard with
        cpu := settled true Register.sp (m.cpu.reg Register.sp + 24) loaded.2.cpu } := by
    rw [hblock, hnone]
    exact finishTransfer_none ..
  rw [hcpu] at hrun
  exact ⟨congrArg Board.cpu hrun, (congrArg Board.system hrun).trans hsystem⟩

/-- `ldmia sp!, {r0-r3, r12, lr}` gets back what was saved of a register file. -/
theorem StubMapped.restore (hstub : StubMapped p system) (hs : s.Masked)
    (hc : AtStub p s file system (linkWord p + 2) c) {saved : PhysicalRegister → UInt32}
    (hwords : ∀ k (hk : k < callerSaved.length),
      stored p system .word (file (Register.sp.physical s.mode) + 4 * UInt32.ofNat k) =
        saved (callerSaved[k].physical s.mode))
    (hsp : file (Register.sp.physical s.mode) + 24 = saved (Register.sp.physical s.mode))
    (hkept : ∀ q, q ≠ Register.sp.physical s.mode →
      ¬ (q.number ∈ callerSaved ∧ q.number.physical s.mode = q) → file q = saved q) :
    AtStub p s saved system (linkWord p + 3) ((core p).step c).2 := by
  have hi : linkWord p + 2 < (Firmware.stub p).size := by rw [size_stub]; omega
  have hword : (Firmware.stub p)[linkWord p + 2] = 0xE8BD500F := by cases p <;> rfl
  obtain ⟨m, hm, hstep⟩ := hstub.during hs hi hc 0xE8BD500F hword rfl
  have hbase : m.cpu.reg Register.sp = file (Register.sp.physical s.mode) := hm.reg (by decide)
  let value : Register → UInt32 := fun r => saved (r.physical s.mode)
  have hloaded := blockTransfer_popping (p := p) (m := m) value (by
    rw [hbase, hm.around]
    exact hwords)
  have hexecute : (core p).runArm 0xE8BD500F
      (.blockTransfer Register.sp 0x500F false ⟨false, true, true, true⟩) m =
        (core p).blockTransfer Register.sp 0x500F (ascending true) m := rfl
  rw [hstep, decode_pop, hexecute]
  generalize ((core p).blockTransfer Register.sp 0x500F (ascending true) m).2 = t at hloaded
  obtain ⟨hcpu, hsystem⟩ := hloaded
  obtain ⟨hcpsr, hspsr, hawake⟩ := m.cpu.status_setAll value callerSaved
  have hmode : (m.cpu.setAll value callerSaved).mode = s.mode :=
    (congrArg Mode.ofStatus hcpsr).trans hm.mode
  have hnext : Before (stored p) s saved system (stubWord p system (linkWord p + 2) + 4)
      t.toBoard := by
    refine hm.before hs ?_ ?_ ?_ (fun q hq => ?_) (hsystem.trans hm.around) rfl rfl
    · rw [hcpu]
      exact ((m.cpu.sameFetch_setAll value (by decide)).trans
        ((m.cpu.setAll value callerSaved).sameFetch_setReg (by decide) _)).withAccess _
    · rw [hcpu]
      exact hawake
    · rw [hcpu]
      exact hspsr
    · -- The stack pointer has moved back, the saved registers are loaded, the others were kept.
      rw [hcpu, physicalValue_settled, hmode, physicalValue_setAll, hm.mode]
      split
      · next hq' => rw [hbase, hsp, hq'.2]
      · next hq' =>
        split
        · next hin =>
          show saved (q.number.physical s.mode) = saved q
          rw [hin.2]
        · next hin =>
          rw [hm.file q hq]
          exact hkept q (fun heq => hq' ⟨rfl, heq⟩) hin
  rwa [← stubWord_succ] at hnext

/-- `subs pc, lr, #4` -/
theorem StubMapped.leave (hstub : StubMapped p system) (hs : s.Masked) (hmode : s.mode = .irq)
    (hc : AtStub p s file system (linkWord p + 3) c) :
    let t := ((core p).step c).2
    t.cpu.cpsr = s.spsr.get Mode.irq.bank ∧ t.cpu.spsr = s.spsr ∧
      (∀ q ≠ PhysicalRegister.pc, t.cpu.physicalValue q = file q) ∧
      t.cpu.pc = Address.alignDown (file (.lr Mode.irq.bank) - 4) t.cpu.instructionSize +
        t.cpu.instructionSize ∧
      t.system = system := by
  intro t
  have hi : linkWord p + 3 < (Firmware.stub p).size := by rw [size_stub]; omega
  have hword : (Firmware.stub p)[linkWord p + 3] = 0xE25EF004 := by cases p <;> rfl
  have hopcode : (core p).nextOpcode c = (false, 0xE25EF004) := by
    rw [(core_looking p).nextOpcode hs hc, hstub.stored_word hi, hword]
  have hdecode : Arm.decode (core p).processor.isV5 0xE25EF004 =
      .alu .sub true Register.lr Register.pc (.immediate 4 0) := by cases p <;> decide
  obtain ⟨hcpsr, hspsr, hfile, hpc⟩ := (core_quietEntry p).step_of_return
    ((congrArg Mode.ofStatus hc.cpsr).trans hmode) hc.canRun (hc.calm hs) hopcode hdecode
    c.cpu.holds_always
  refine ⟨hcpsr.trans (congrArg (Vector.get · _) hc.spsr), hspsr.trans hc.spsr,
    fun q hq => (hfile q hq).trans (hc.file q hq), ?_, ?_⟩
  · rw [← hc.file _ (by decide)]
    exact hpc
  · obtain ⟨m, hm, hstep⟩ := hstub.during hs hi hc 0xE25EF004 hword rfl
    have hsystem : ((core p).executeAlu .sub true Register.lr Register.pc (.immediate 4 0)
        m).2.system = m.system := ((core_looking p).jump _ _).2
    have hrun : t.system = ((core p).executeAlu .sub true Register.lr Register.pc
        (.immediate 4 0) m).2.system := by
      show ((core p).step c).2.system = _
      rw [hstep, hdecode]
      rfl
    exact hrun.trans (hsystem.trans hm.around)

/-! ## The whole handler -/

/-- The register file with which the program's handler is called. -/
def calledFile (s : CpuState) (file : PhysicalRegister → UInt32) (aim link : UInt32) :
    PhysicalRegister → UInt32 :=
  Function.update
    (Function.update
      (Function.update file (Register.sp.physical s.mode)
        (file (Register.sp.physical s.mode) - 24))
      (.low 0) aim)
    (Register.lr.physical s.mode) link

section
variable (s : CpuState) (file : PhysicalRegister → UInt32) (aim link : UInt32)

theorem calledFile_lr : calledFile s file aim link (Register.lr.physical s.mode) = link :=
  Function.update_self ..

theorem calledFile_sp : calledFile s file aim link (Register.sp.physical s.mode) =
    file (Register.sp.physical s.mode) - 24 := by
  unfold calledFile
  rw [Function.update_of_ne (by simp), Function.update_of_ne (by simp), Function.update_self]

theorem calledFile_kept {q : PhysicalRegister} (hsp : q ≠ Register.sp.physical s.mode)
    (hq : ¬ (q.number ∈ callerSaved ∧ q.number.physical s.mode = q)) :
    calledFile s file aim link q = file q := by
  have hlr : q ≠ Register.lr.physical s.mode := by
    rintro rfl
    exact hq ⟨by rw [Register.number_physical]; decide, by rw [Register.number_physical]⟩
  have hlow : q ≠ .low 0 := by
    rintro rfl
    exact hq ⟨by decide, rfl⟩
  unfold calledFile
  rw [Function.update_of_ne hlr, Function.update_of_ne hlow, Function.update_of_ne hsp]

end

/-- From the first word of the handler to its last one, with a program's handler that returns at
once: the register file is as it was, and only the saved words have changed. -/
theorem StubMapped.handled (hstub : StubMapped p system) (hs : s.Masked)
    (hsized : system.memory.Sized) (hsettled : system.control.Settled) {cells : List Cell}
    (hcount : cells.length = 6)
    (hram : RamFrom p system (file (Register.sp.physical s.mode) - 24) cells) {handler : UInt32}
    (hpointer : stored p system .word (handlerPointer system p) = handler)
    (hpointerApart : Apart p system (handlerPointer system p) cells)
    (haligned : 4 ∣ handler.toNat) (hhandler : stored p system .word handler = 0xE12FFF1E)
    (hhandlerApart : Apart p system handler cells) (hc : AtStub p s file system 6 c) :
    AtStub p s file { system with memory := system.memory.setWords cells (savedWords s file) }
      (linkWord p + 3) (ran p (linkWord p - 2) c) := by
  let memory := system.memory.setWords cells (savedWords s file)
  let after : System := { system with memory }
  let link := stubWord p after (linkWord p + 2)
  have hstubAfter : StubMapped p after := hstub.withMemory memory
  have houtside : Memory.SameOutside cells system.memory memory :=
    Memory.sameOutside_setWords system.memory cells (savedWords s file)
  have hpointerAfter : stored p after .word (handlerPointer after p) = handler := by
    have hplace : handlerPointer after p = handlerPointer system p := by cases p <;> rfl
    rw [hplace]
    exact (hpointerApart.stored_eq hsettled houtside).trans hpointer
  have hhandlerAfter : stored p after .word handler = 0xE12FFF1E :=
    (hhandlerApart.stored_eq hsettled houtside).trans hhandler
  have hlinkAligned : 4 ∣ link.toNat :=
    four_dvd_stubWord p after (by cases p <;> decide)
  -- From the stack to the handler and back.
  have hsaved := hstub.save hs hsettled hcount hram hc
  have haimed := hstubAfter.aim hs hsaved
  have hlinked : AtStub p s (calledFile s file (pointerEnd after p) link) after (linkWord p + 1)
      ((core p).step (ran p (linkWord p - 7) ((core p).step c).2)).2 := hstubAfter.link hs haimed
  have hcalled := hstubAfter.follow hs hlinked
    ((Function.update_of_ne (by simp) _ _).trans (Function.update_self ..)) hpointerAfter haligned
  have hreturned := handler_returns hs hcalled hhandlerAfter
    (by rw [calledFile_lr]; exact hlinkAligned)
  rw [calledFile_lr] at hreturned
  -- The saved words are found again, because the cells are all different.
  have hwords : ∀ k (hk : k < callerSaved.length),
      stored p after .word (calledFile s file (pointerEnd after p) link
        (Register.sp.physical s.mode) + 4 * UInt32.ofNat k) =
          file (callerSaved[k].physical s.mode) := by
    intro k hk
    have hk' : k < cells.length := hcount ▸ hk
    have hlength : (savedWords s file).length = cells.length := hcount.symm
    have hfound := Memory.word_setWords hsized (hram.nodup hsettled (by omega)) hlength hk'
    rw [calledFile_sp]
    refine (stored_of_target ((hram.congr (t := after) rfl) k hk' false)).trans (hfound.trans ?_)
    exact List.getElem_map ..
  have hrestored := hstubAfter.restore hs hreturned hwords
    (by rw [calledFile_sp, UInt32.sub_add_cancel])
    fun q hsp hq => calledFile_kept s file (pointerEnd after p) link hsp hq
  have hran : ran p (linkWord p - 2) c = ((core p).step ((core p).step ((core p).step
      ((core p).step (ran p (linkWord p - 7) ((core p).step c).2)).2).2).2).2 := by
    cases p <;> rfl
  rw [hran]
  exact hrestored

/-- An interrupt is entered at the sixth word of the stub, in interrupt mode with interrupts
masked. -/
theorem entered_at_stub {b : Board System} (htaken : (core p).takesInterrupt b = true) :
    let e := ((core p).step b).2
    e.cpu.Masked ∧ e.cpu.mode = .irq ∧ AtStub p e.cpu e.cpu.physicalValue b.system 6 e := by
  intro e
  let m := (core p).interrupted b
  have hsystem : m.system = b.system := woken_system (core p) b
  have hawake : m.cpu.isHalted = false := by
    show ((core p).woken b).cpu.isHalted = false
    rw [cpu_woken]
  obtain ⟨hcpu, hkept⟩ := (core_looking p).raise .interruptRequest m
  have hstep : e = ((core p).raise .interruptRequest m).2.toBoard :=
    step_of_taken (canRun_of_takesInterrupt htaken) htaken
  have he : e.cpu = (m.cpu.raised .interruptRequest).landed (stubWord p b.system 6) := by
    rw [hstep, hcpu, hsystem]
    rfl
  have hmasked : e.cpu.Masked := by
    rw [he]
    exact ⟨thumb_raised .interruptRequest m.cpu, irqDisable_raised .interruptRequest m.cpu⟩
  refine ⟨hmasked, ?_, ?_⟩
  · rw [he]
    exact mode_raised .interruptRequest m.cpu
  · have hsize : (m.cpu.raised .interruptRequest).instructionSize = 4 := by
      rw [instructionSize, thumb_raised]
      rfl
    exact {
      awake := by rw [he]; exact (isHalted_raised .interruptRequest m.cpu).trans hawake
      cpsr := rfl
      spsr := rfl
      file := fun _ _ => rfl
      pc := by rw [he, pc_landed, hsize, alignDown_stubWord p b.system (by decide)]
      around := by rw [hstep]; exact hkept.trans hsystem
      prefetched := fun hvalid => by
        rw [he] at hvalid
        cases hvalid }

/-- A processor that has got back the status, the next instruction and the register file of a board
that was interrupted shows every register as that board did. -/
theorem resumed {b : Board System} (run : (core p).Reached b) {t : CpuState}
    (hcpsr : t.cpsr = b.cpu.cpsr)
    (hpc : t.pc =
      Address.alignDown b.cpu.nextInstruction t.instructionSize + t.instructionSize)
    (hfile : ∀ q ≠ PhysicalRegister.pc, q ≠ .lr Mode.irq.bank →
      t.physicalValue q = b.cpu.physicalValue q) :
    t.pc = b.cpu.pc ∧ t.nextInstruction = b.cpu.nextInstruction ∧
      ∀ (m : Mode) (r : Register), ¬ (r = Register.lr ∧ m.bank = Mode.irq.bank) →
        t.regInMode m r = b.cpu.regInMode m r := by
  have hsize : t.instructionSize = b.cpu.instructionSize :=
    instructionSize_congr (isFlag_congr hcpsr .thumb)
  have hreturn : t.pc = b.cpu.pc := by
    obtain ⟨k, -, htwo⟩ := b.cpu.instructionSize_eq_two_pow
    rw [hpc, hsize, Address.alignDown_of_dvd htwo
      (run.aligned (core_backed p).samePlace).dvd_nextInstruction, nextInstruction,
      UInt32.sub_add_cancel]
  refine ⟨hreturn, ?_, fun m r hr => ?_⟩
  · rw [nextInstruction, nextInstruction, hreturn, hsize]
  · by_cases hrpc : r = Register.pc
    · rw [hrpc]
      exact hreturn
    · obtain ⟨hp, hp'⟩ := physical_ne hrpc hr
      rw [regInMode_eq_physicalValue, regInMode_eq_physicalValue, hfile _ hp hp']

/-- **The firmware's interrupt handler is transparent.** A board that a processor has reached, in
any mode and instruction set, takes an interrupt. As on every console that there can be, the
memories have their sizes and the windows are the ones that were programmed (`invariant_sizes`,
`invariant_settled`). The stub is at the vectors, the six words below the stack pointer of the
interrupt mode are memory to read and to write, and apart from them lie the pointer to the program's
handler and the handler, a long instruction `bx lr`. One step enters the interrupt, one is the
handler's, and one belongs to each word of the stub from the sixth on. Then the interrupted program
has its status, its program counter, its next instruction, and all registers and saved statuses
back, apart from the link register and the saved status of the interrupt mode; and of the system,
nothing but the six words has changed. -/
theorem interrupt_stub_transparent (p : Processor) {b : Board System} (run : (core p).Reached b)
    (htaken : (core p).takesInterrupt b = true) (hstub : StubMapped p b.system)
    (hsized : b.system.memory.Sized) (hsettled : b.system.control.Settled) {cells : List Cell}
    (hcount : cells.length = 6)
    (hram : RamFrom p b.system (b.cpu.regInMode .irq Register.sp - 24) cells) {handler : UInt32}
    (hpointer : stored p b.system .word (handlerPointer b.system p) = handler)
    (hpointerApart : Apart p b.system (handlerPointer b.system p) cells)
    (haligned : 4 ∣ handler.toNat) (hhandler : stored p b.system .word handler = 0xE12FFF1E)
    (hhandlerApart : Apart p b.system handler cells) :
    let count := (Firmware.stub p).size - 6 + 2
    let last := ran p (count - 1) b
    let t := ran p count b
    last.cpu.nextInstruction = stubWord p b.system ((Firmware.stub p).size - 1) ∧
      t.cpu.cpsr = b.cpu.cpsr ∧ t.cpu.pc = b.cpu.pc ∧
      t.cpu.nextInstruction = b.cpu.nextInstruction ∧
      (∀ (m : Mode) (r : Register), ¬ (r = Register.lr ∧ m.bank = Mode.irq.bank) →
        t.cpu.regInMode m r = b.cpu.regInMode m r) ∧
      (∀ bank : Fin 6, bank ≠ Mode.irq.bank → t.cpu.spsr.get bank = b.cpu.spsr.get bank) ∧
      t.system = { b.system with memory := t.system.memory } ∧
      Memory.SameOutside cells b.system.memory t.system.memory := by
  intro count last t
  obtain ⟨hs, hmode, he⟩ := entered_at_stub htaken
  obtain ⟨hentrySpsr, hentryLr, hentry⟩ := (core_quietEntry p).step_of_taken
    (canRun_of_takesInterrupt htaken) htaken
  let e := ((core p).step b).2
  have hsp : e.cpu.physicalValue (Register.sp.physical e.cpu.mode) =
      b.cpu.regInMode .irq Register.sp := by
    rw [hmode, regInMode_eq_physicalValue]
    exact hentry _ (by decide) (by decide)
  have hlast := hstub.handled hs hsized hsettled hcount (by rwa [hsp]) hpointer hpointerApart
    haligned hhandler hhandlerApart he
  have hcounted : last = ran p (linkWord p - 2) e ∧ t = ((core p).step last).2 := by
    cases p <;> exact ⟨rfl, rfl⟩
  rw [← hcounted.1] at hlast
  obtain ⟨hcpsr, hspsr, hfile, hpc, hsystem⟩ := (hstub.withMemory _).leave hs hmode hlast
  rw [← hcounted.2] at hcpsr hspsr hfile hpc hsystem
  have hsaved : e.cpu.spsr = b.cpu.spsr.set Mode.irq.bank b.cpu.cpsr := hentrySpsr
  have hstatus : t.cpu.cpsr = b.cpu.cpsr := by
    refine hcpsr.trans ?_
    rw [hsaved]
    exact Vector.getElem_set_self _
  rw [hentryLr, UInt32.add_sub_cancel] at hpc
  obtain ⟨hreturn, hnext, hregisters⟩ := resumed run hstatus hpc fun q hq hlr =>
    (hfile q hq).trans (hentry q hq hlr)
  refine ⟨?_, hstatus, hreturn, hnext, hregisters, fun bank hbank => ?_, ?_, ?_⟩
  · have hindex : linkWord p + 3 = (Firmware.stub p).size - 1 := by rw [size_stub]; rfl
    rw [hlast.nextInstruction hs, stubWord_withMemory, hindex]
  · rw [hspsr, hsaved]
    exact Vector.getElem_set_ne _ _ (Fin.val_ne_of_ne hbank.symm)
  · rw [hsystem]
  · rw [hsystem]
    exact Memory.sameOutside_setWords ..

/-- The last word of the main processor's data memory. -/
def pointerCell : Cell := ⟨.dataTcm, 0x3FFC, by decide, by decide⟩

/-- A word of the main memory, at 0x02000200. -/
def handlerCell : Cell := ⟨.main, 0x200, by decide, by decide⟩

/-- The six words below 0x03003F80, in the shared memory. -/
def stackCells : List Cell :=
  [⟨.shared, 0x3F68, by decide, by decide⟩, ⟨.shared, 0x3F6C, by decide, by decide⟩,
    ⟨.shared, 0x3F70, by decide, by decide⟩, ⟨.shared, 0x3F74, by decide, by decide⟩,
    ⟨.shared, 0x3F78, by decide, by decide⟩, ⟨.shared, 0x3F7C, by decide, by decide⟩]

/-- A processor that executes short instructions in system mode. -/
def installing : CpuState :=
  ({} : CpuState)
    |>.setRegInMode .irq Register.sp 0x03003F80
    |>.setCpsr 0x3F
    |>.setReg 0 7

/-- A program of the main processor that has installed a handler, with an interrupt to take. -/
def handlerInstalled : Board System where
  cpu := installing.startAt 0x02000100
  system :=
    { memory := (({} : Memory).setWord pointerCell 0x02000200).setWord handlerCell 0xE12FFF1E
      interrupts := ⟨{}, { master := true, enabled := 1, raised := 1 }⟩ }
  log := {}

theorem stackCells_shared : ∀ cell ∈ stackCells, cell.region = .shared := by
  simp [stackCells]

/-- Words of other memories are apart from the stack. -/
theorem apart_stackCells {address : UInt32} {cell : Cell} (hcell : cell.region ≠ .shared)
    (htarget : handlerInstalled.system.target .arm9 (Address.alignDown address 4) false =
      cell.target) : Apart .arm9 handlerInstalled.system address stackCells := by
  intro other hother heq
  have hsame : cell = other := Cell.target_inj (htarget.symm.trans heq)
  exact hcell (hsame ▸ stackCells_shared other hother)

/-- The program goes on where it was, with its registers. -/
theorem interrupt_stub_transparent_installed :
    let t := ran .arm9 11 handlerInstalled
    t.cpu.cpsr = 0x3F ∧ t.cpu.nextInstruction = 0x02000100 ∧ t.cpu.regInMode .system 0 = 7 ∧
      Memory.SameOutside stackCells handlerInstalled.system.memory t.system.memory := by
  have hsized : handlerInstalled.system.memory.Sized :=
    (Memory.sized_initial.setWord pointerCell 0x02000200).setWord handlerCell 0xE12FFF1E
  have hstub : StubMapped .arm9 handlerInstalled.system := stubMapped_initial rfl
  have hram : RamFrom .arm9 handlerInstalled.system
      (handlerInstalled.cpu.regInMode .irq Register.sp - 24) stackCells := by
    intro k hk write
    have hlength : stackCells.length = 6 := rfl
    rw [hlength] at hk
    interval_cases k <;> cases write <;> rfl
  have hpointerTarget : handlerInstalled.system.target .arm9 (Address.alignDown
      (handlerPointer handlerInstalled.system .arm9) 4) false = pointerCell.target := rfl
  have hhandlerTarget : handlerInstalled.system.target .arm9 (Address.alignDown 0x02000200 4)
      false = handlerCell.target := rfl
  have hdifferent : pointerCell ∉ [handlerCell] := by
    rw [List.mem_singleton]
    exact fun heq => absurd (congrArg Cell.region heq) (by decide)
  have hpointer : stored .arm9 handlerInstalled.system .word
      (handlerPointer handlerInstalled.system .arm9) = 0x02000200 := by
    rw [stored_of_target hpointerTarget]
    refine ((Memory.sameOutside_setWord _ handlerCell _).word hdifferent).trans ?_
    exact Memory.word_setWord_self Memory.sized_initial pointerCell 0x02000200
  have hhandler : stored .arm9 handlerInstalled.system .word 0x02000200 = 0xE12FFF1E := by
    rw [stored_of_target hhandlerTarget]
    exact Memory.word_setWord_self (Memory.sized_initial.setWord _ _) handlerCell 0xE12FFF1E
  have hreached : (core .arm9).Reached handlerInstalled :=
    .start { handlerInstalled with cpu := installing } 0x02000100
  have htaken : (core .arm9).takesInterrupt handlerInstalled = true := rfl
  have hcount : (Firmware.stub .arm9).size - 6 + 2 = 11 := rfl
  have hresult := interrupt_stub_transparent .arm9 hreached htaken hstub hsized
    SystemControl.settled_initial rfl hram hpointer (apart_stackCells (by decide) hpointerTarget)
    (by decide) hhandler (apart_stackCells (by decide) hhandlerTarget)
  rw [hcount] at hresult
  obtain ⟨-, hcpsr, -, hnext, hregisters, -, -, hmemory⟩ := hresult
  have hstatus : handlerInstalled.cpu.cpsr = 0x3F := rfl
  have hplace : handlerInstalled.cpu.nextInstruction = 0x02000100 := rfl
  have hzero : handlerInstalled.cpu.regInMode .system 0 = 7 := rfl
  exact ⟨hcpsr.trans hstatus, hnext.trans hplace,
    (hregisters .system 0 (by decide)).trans hzero, hmemory⟩

end Handheld.Console
