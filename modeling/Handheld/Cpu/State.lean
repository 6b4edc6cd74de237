import Handheld.Address
import Handheld.Cpu.Mode

/-!
# The state of a processor

The active registers, the banks of the other modes, the status registers and the two prefetched
opcodes. The registers of the current mode are always in the active set: a change of mode stores
them back into the old mode's banks and fetches the new mode's. A bank of the current mode is
therefore stale until the mode changes; `slotOf` says where a register of a mode is found.
-/

namespace Handheld

open Word Address

/-! ## Kinds of access -/

/-- Kind of a memory access: bit 0 for a sequential one, bit 1 for an opcode fetch. -/
abbrev Access := UInt8

namespace Access

def nonSequential : Access := 0
def sequential : Access := 1
def code : Access := 2

end Access

/-- A register with one copy for the fast interrupt mode and one for all others. -/
structure FiqRegister where
  shared : UInt32 := 0
  fiq : UInt32 := 0
  deriving DecidableEq, Repr, Inhabited

/-- The registers at power-up: the program counter is one instruction ahead. -/
def resetRegisters : Vector UInt32 16 := (Vector.replicate 16 0).set 15 4

/-- The state of a processor. -/
structure CpuState where
  /-- The registers of the current mode. -/
  registers : Vector UInt32 16 := resetRegisters
  /-- The copies of r8 to r12. -/
  fiqs : Vector FiqRegister 5 := Vector.replicate 5 {}
  /-- The stack pointers by bank. -/
  sp : Vector UInt32 6 := Vector.replicate 6 0
  /-- The link registers by bank. -/
  lr : Vector UInt32 6 := Vector.replicate 6 0
  /-- The status register. -/
  cpsr : UInt32 := 0xD3
  /-- The saved status registers by bank. -/
  spsr : Vector UInt32 6 := Vector.replicate 6 0
  /-- The prefetched opcodes, the next one first. -/
  pipeline : Vector UInt32 2 := Vector.replicate 2 0
  /-- Whether the prefetched opcodes belong to the current address. -/
  pipelineValid : Bool := false
  /-- Kind of the next opcode fetch. -/
  accessType : Access := Access.nonSequential
  isHalted : Bool := false
  deriving DecidableEq, Repr, Inhabited

/-- Where a register of some mode is kept. -/
inductive Slot where
  | active (r : Register)
  | fiq (index : Fin 5) (fiq : Bool)
  | sp (bank : Fin 6)
  | lr (bank : Fin 6)
  deriving DecidableEq, Repr

namespace CpuState

/-! ## Active registers -/

/-- A register of the current mode. -/
def reg (s : CpuState) (r : Register) : UInt32 := s.registers[r]

/-- Overwrite a register of the current mode. -/
def setReg (s : CpuState) (r : Register) (value : UInt32) : CpuState :=
  { s with registers := s.registers.set r.val value r.isLt }

/-- A short instruction's register. -/
def low (s : CpuState) (r : LowRegister) : UInt32 := s.reg r.wide

def setLow (s : CpuState) (r : LowRegister) (value : UInt32) : CpuState := s.setReg r.wide value

/-- The program counter, which runs ahead of the executing instruction. -/
def pc (s : CpuState) : UInt32 := s.reg Register.pc

/-- The program counter rounded down to a word, as short instructions address by it. -/
def wordPc (s : CpuState) : UInt32 := s.pc &&& ~~~2

/-- Move the program counter ahead. -/
def bumpPc (s : CpuState) (count : UInt32) : CpuState := s.setReg Register.pc (s.pc + count)

/-- A register as the instructions see it that read it one cycle late: the program counter has
moved on by one more word. -/
def lateReg (s : CpuState) (r : Register) : UInt32 :=
  if r = Register.pc then s.pc + 4 else s.reg r

/-! ## Status -/

def isFlag (s : CpuState) (f : Flag) : Bool := isBit s.cpsr f.position

def setFlag (s : CpuState) (f : Flag) (state : Bool) : CpuState :=
  { s with cpsr := setBit s.cpsr f.position state }

/-- The current mode. -/
def mode (s : CpuState) : Mode := Mode.ofStatus s.cpsr

/-- Size of an instruction of the current instruction set. -/
def instructionSize (s : CpuState) : UInt32 := if s.isFlag .thumb then 2 else 4

/-- How far the program counter is ahead of the executing instruction. -/
def pipelineOffset (s : CpuState) : UInt32 := s.instructionSize * 2

/-- Address of the instruction that executes next. -/
def nextInstruction (s : CpuState) : UInt32 := s.pc - s.instructionSize

/-- Address of the instruction that was fetched last and executes now. -/
def executing (s : CpuState) : UInt32 := s.pc - s.pipelineOffset

/-! ## Banks -/

/-- Store the active registers back into the banks of the current mode. -/
def storeBanks (s : CpuState) : CpuState :=
  let m := s.mode
  { s with
    fiqs := Vector.ofFn fun i =>
      let value := s.registers[i.val + 8]
      if m = .fiq then { s.fiqs[i] with fiq := value } else { s.fiqs[i] with shared := value }
    sp := s.sp.set m.bank (s.reg Register.sp)
    lr := s.lr.set m.bank (s.reg Register.lr) }

/-- Fetch the active registers from the banks of the current mode. -/
def loadBanks (s : CpuState) : CpuState :=
  let m := s.mode
  let fiqs := if m = .fiq then s.fiqs.map (·.fiq) else s.fiqs.map (·.shared)
  { s with
    registers := s.registers
      |>.set 8 fiqs[0] |>.set 9 fiqs[1] |>.set 10 fiqs[2] |>.set 11 fiqs[3] |>.set 12 fiqs[4]
      |>.set 13 s.sp[m.bank] |>.set 14 s.lr[m.bank] }

/-- Set the status register, changing the active registers if the mode changes. -/
def setCpsr (s : CpuState) (value : UInt32) : CpuState :=
  { s.storeBanks with cpsr := value }.loadBanks

/-- Set the mode bits of the status register. -/
def setMode (s : CpuState) (m : Mode) : CpuState := s.setCpsr ((s.cpsr &&& ~~~0x1F) ||| m.toBits)

/-- The saved status of the current mode; a mode without one reads the status itself. -/
def savedStatus (s : CpuState) : UInt32 :=
  if s.mode.hasSavedStatus then s.spsr[s.mode.bank] else s.cpsr

/-- Set the saved status of the current mode, if it has one. -/
def setSavedStatus (s : CpuState) (value : UInt32) : CpuState :=
  if s.mode.hasSavedStatus then { s with spsr := s.spsr.set s.mode.bank value } else s

/-- Where a register of a mode is kept while the state is in its current mode. -/
def slotOf (s : CpuState) (m : Mode) (r : Register) : Slot :=
  let current := s.mode
  if h : 8 ≤ r.val ∧ r.val ≤ 12 then
    if (m == .fiq) != (current == .fiq) then .fiq ⟨r.val - 8, by omega⟩ (m == .fiq)
    else .active r
  else if r = Register.sp ∧ m.bank ≠ current.bank then .sp m.bank
  else if r = Register.lr ∧ m.bank ≠ current.bank then .lr m.bank
  else .active r

/-- The value kept in a slot. -/
def slot (s : CpuState) : Slot → UInt32
  | .active r => s.reg r
  | .fiq i true => s.fiqs[i].fiq
  | .fiq i false => s.fiqs[i].shared
  | .sp bank => s.sp[bank]
  | .lr bank => s.lr[bank]

/-- Overwrite a slot. -/
def setSlot (s : CpuState) (value : UInt32) : Slot → CpuState
  | .active r => s.setReg r value
  | .fiq i true => { s with fiqs := s.fiqs.set i { s.fiqs[i] with fiq := value } }
  | .fiq i false => { s with fiqs := s.fiqs.set i { s.fiqs[i] with shared := value } }
  | .sp bank => { s with sp := s.sp.set bank value }
  | .lr bank => { s with lr := s.lr.set bank value }

/-- A register as another mode sees it. -/
def regInMode (s : CpuState) (m : Mode) (r : Register) : UInt32 := s.slot (s.slotOf m r)

/-- Overwrite a register as another mode sees it. The program counter gets no special care. -/
def setRegInMode (s : CpuState) (m : Mode) (r : Register) (value : UInt32) : CpuState :=
  s.setSlot value (s.slotOf m r)

/-! ## Conditions -/

/-- For each condition the set of flag combinations, as bits over the top four status bits,
under which it holds. -/
def conditionMasks : Vector UInt16 16 :=
  #v[0xF0F0, -- EQ [-Z--]
     0x0F0F, -- NE [-z--]
     0xCCCC, -- CS [--C-]
     0x3333, -- CC [--c-]
     0xFF00, -- MI [N---]
     0x00FF, -- PL [n---]
     0xAAAA, -- VS [---V]
     0x5555, -- VC [---v]
     0x0C0C, -- HI [-zC-]
     0xF3F3, -- LS [-Z--] or [--c-]
     0xAA55, -- GE [N--V] or [n--v]
     0x55AA, -- LT [N--v] or [n--V]
     0x0A05, -- GT [Nz-V] or [nz-v]
     0xF5FA, -- LE [-Z--] or [Nz-v] or [nz-V]
     0xFFFF, -- AL
     0x0000] -- NV

/-- Whether the flags satisfy an instruction's condition. -/
def holds (s : CpuState) (condition : Fin 16) : Bool :=
  isBit conditionMasks[condition] (s.cpsr >>> 28).toNat

/-! ## Pipeline -/

/-- Point the processor at an address in the current instruction set, without the cost of a
jump. -/
def startAt (s : CpuState) (address : UInt32) : CpuState :=
  let size := s.instructionSize
  { s.setReg Register.pc (alignDown address size + size) with
    pipelineValid := false
    accessType := Access.nonSequential }

/-- The next prefetched opcode; `incoming` takes the free place. -/
def advancePipeline (s : CpuState) (incoming : UInt32) : UInt32 × CpuState :=
  (s.pipeline[0],
    { s with
      pipeline := #v[s.pipeline[1], incoming]
      accessType := Access.sequential })

end CpuState
end Handheld
