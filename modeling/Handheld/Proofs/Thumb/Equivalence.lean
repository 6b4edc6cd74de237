import Handheld.Proofs.Cpu.InstructionCourse
import Handheld.Proofs.Thumb.Assembly

/-!
# Either instruction set

A processor that executes short instructions differs from one that executes long ones in its
program counter, its instruction set and what it has prefetched. Instructions that do not look at
these do the same on both, and a short instruction can be exchanged for its long form.
-/

namespace Handheld

open Word

variable {σ α β : Type}

namespace Register

/-- A set of registers below the program counter. -/
theorem pc_not_mem_ofSet {set : UInt16} (h : set.toNat < 2 ^ 15) : pc ∉ ofSet set := by
  intro hmem
  have hzero : set &&& 0x8000 = 0 := by
    rw [← UInt16.toNat_inj, UInt16.toNat_and]
    show set.toNat &&& 2 ^ 15 = 0
    rw [Nat.and_two_pow, Nat.testBit_lt_two_pow h]
    rfl
  have hbit : (set &&& 0x8000 != 0) = true := (List.mem_filter.mp hmem).2
  rw [hzero] at hbit
  cases hbit

end Register

/-! ## What both instruction sets share -/

/-- Both states have the same registers below the program counter, the same result flags and the
same kind of the next fetch. -/
structure CpuState.SameData (s t : CpuState) : Prop where
  reg : ∀ r, r ≠ Register.pc → t.reg r = s.reg r
  flag : ∀ f : Flag, 28 ≤ f.position → t.isFlag f = s.isFlag f
  accessType : t.accessType = s.accessType

/-- Both machines have the same data and the same system, and the second one has taken a fixed
time more. -/
structure Beside (lag : UInt64) (m n : Machine σ) : Prop where
  cpu : m.cpu.SameData n.cpu
  system : n.system = m.system
  cycles : n.cycles = m.cycles + lag

namespace CpuState.SameData

variable {s t u : CpuState}

theorem refl (s : CpuState) : s.SameData s := ⟨fun _ _ => rfl, fun _ _ => rfl, rfl⟩

theorem symm (h : s.SameData t) : t.SameData s :=
  ⟨fun r hr => (h.reg r hr).symm, fun f hf => (h.flag f hf).symm, h.accessType.symm⟩

theorem trans (h : s.SameData t) (h' : t.SameData u) : s.SameData u :=
  ⟨fun r hr => (h'.reg r hr).trans (h.reg r hr), fun f hf => (h'.flag f hf).trans (h.flag f hf),
    h'.accessType.trans h.accessType⟩

theorem low (h : s.SameData t) (d : LowRegister) : t.low d = s.low d :=
  h.reg d.wide (wide_ne_pc d)

theorem setReg (h : s.SameData t) (r : Register) (value : UInt32) :
    (s.setReg r value).SameData (t.setReg r value) := by
  refine ⟨fun q hq => ?_, h.flag, h.accessType⟩
  rw [reg_setReg, reg_setReg, h.reg q hq]

theorem setAccess (h : s.SameData t) (access : Access) :
    { s with accessType := access }.SameData { t with accessType := access } :=
  ⟨h.reg, h.flag, rfl⟩

theorem withNZ (h : s.SameData t) (value : UInt32) :
    { s with cpsr := Arithmetic.withNZ s.cpsr value }.SameData
      { t with cpsr := Arithmetic.withNZ t.cpsr value } := by
  refine ⟨h.reg, fun f hf => ?_, h.accessType⟩
  have hbit : isBit t.cpsr f.position = isBit s.cpsr f.position := h.flag f hf
  show isBit (Arithmetic.withNZ _ _) _ = isBit (Arithmetic.withNZ _ _) _
  rw [Arithmetic.isBit_withNZ _ _ f.position_lt, Arithmetic.isBit_withNZ _ _ f.position_lt, hbit]

theorem withNZC (h : s.SameData t) (value : UInt32) (carry : Bool) :
    { s with cpsr := Arithmetic.withNZC s.cpsr value carry }.SameData
      { t with cpsr := Arithmetic.withNZC t.cpsr value carry } := by
  refine ⟨h.reg, fun f hf => ?_, h.accessType⟩
  have hbit : isBit t.cpsr f.position = isBit s.cpsr f.position := h.flag f hf
  show isBit (Arithmetic.withNZC _ _ _) _ = isBit (Arithmetic.withNZC _ _ _) _
  rw [Arithmetic.isBit_withNZC _ _ _ f.position_lt, Arithmetic.isBit_withNZC _ _ _ f.position_lt,
    hbit]

theorem withSum (h : s.SameData t) (sum : Sum32) :
    { s with cpsr := Arithmetic.withSum s.cpsr sum }.SameData
      { t with cpsr := Arithmetic.withSum t.cpsr sum } := by
  refine ⟨h.reg, fun f hf => ?_, h.accessType⟩
  have hbit : isBit t.cpsr f.position = isBit s.cpsr f.position := h.flag f hf
  show isBit (Arithmetic.withSum _ _) _ = isBit (Arithmetic.withSum _ _) _
  rw [Arithmetic.isBit_withSum _ _ f.position_lt, Arithmetic.isBit_withSum _ _ f.position_lt, hbit]

theorem setFlag (h : s.SameData t) (f : Flag) (state : Bool) :
    (s.setFlag f state).SameData (t.setFlag f state) := by
  refine ⟨h.reg, fun g hg => ?_, h.accessType⟩
  have hbit : isBit t.cpsr g.position = isBit s.cpsr g.position := h.flag g hg
  show isBit (setBit _ _ _) _ = isBit (setBit _ _ _) _
  rw [isBit_setBit _ _ f.position_lt g.position_lt, isBit_setBit _ _ f.position_lt g.position_lt,
    hbit]

end CpuState.SameData

/-! ## Computations -/

/-- A callback that looks only at the system and leaves the processor's data alone. -/
structure SeesSystem (act : BoardM σ α) : Prop where
  value : ∀ {b e : Board σ}, e.system = b.system → (act e).1 = (act b).1
  system : ∀ {b e : Board σ}, e.system = b.system → (act e).2.system = (act b).2.system
  cpu : ∀ b : Board σ, b.cpu.SameData (act b).2.cpu

/-- A computation that does the same beside itself. -/
structure Oblivious (f : MachineM σ α) : Prop where
  run : ∀ {lag : UInt64} {m n : Machine σ}, Beside lag m n →
    (f n).1 = (f m).1 ∧ Beside lag (f m).2 (f n).2

namespace Oblivious

open MachineM CpuState

theorem pure (a : α) : Oblivious (Pure.pure a : MachineM σ α) := ⟨fun h => ⟨rfl, h⟩⟩

/-- The rest of a computation is only asked about values that it is given. -/
theorem bind_of {f : MachineM σ α} {k : α → MachineM σ β} (hf : Oblivious f)
    (hk : ∀ m, Oblivious (k (f m).1)) : Oblivious (f >>= k) := by
  refine ⟨fun {lag m n} h => ?_⟩
  obtain ⟨hvalue, hbeside⟩ := hf.run h
  have hrest := (hk m).run hbeside
  show (k (f n).1 (f n).2).1 = (k (f m).1 (f m).2).1 ∧
    Beside lag (k (f m).1 (f m).2).2 (k (f n).1 (f n).2).2
  rw [hvalue]
  exact hrest

theorem bind {f : MachineM σ α} {k : α → MachineM σ β} (hf : Oblivious f)
    (hk : ∀ a, Oblivious (k a)) : Oblivious (f >>= k) := hf.bind_of fun m => hk (f m).1

theorem seq {f : MachineM σ Unit} {k : MachineM σ β} (hf : Oblivious f) (hk : Oblivious k) :
    Oblivious (f >>= fun _ => k) := hf.bind fun _ => hk

theorem ite {p : Prop} [Decidable p] {f g : MachineM σ α} (hf : Oblivious f) (hg : Oblivious g) :
    Oblivious (if p then f else g) := by
  by_cases h : p
  · rw [if_pos h]
    exact hf
  · rw [if_neg h]
    exact hg

theorem onBoard {act : BoardM σ α} (h : SeesSystem act) : Oblivious (MachineM.onBoard act) := by
  refine ⟨fun {lag m n} hmn => ⟨h.value hmn.system, ?_, h.system hmn.system, hmn.cycles⟩⟩
  exact ((h.cpu m.toBoard).symm.trans hmn.cpu).trans (h.cpu n.toBoard)

theorem tick (cycles : UInt64) : Oblivious (MachineM.tick cycles : MachineM σ Unit) := by
  refine ⟨fun {lag m n} h => ⟨rfl, h.cpu, h.system, ?_⟩⟩
  show n.cycles + cycles = m.cycles + cycles + lag
  rw [h.cycles, UInt64.add_assoc, UInt64.add_comm lag, UInt64.add_assoc]

theorem view {f : CpuState → α} (hf : ∀ {s t : CpuState}, s.SameData t → f t = f s) :
    Oblivious (MachineM.view f : MachineM σ α) := ⟨fun h => ⟨hf h.cpu, h⟩⟩

theorem change {f : CpuState → CpuState}
    (hf : ∀ {s t : CpuState}, s.SameData t → (f s).SameData (f t)) :
    Oblivious (MachineM.change f : MachineM σ Unit) :=
  ⟨fun h => ⟨rfl, hf h.cpu, h.system, h.cycles⟩⟩

theorem reg {r : Register} (h : r ≠ Register.pc) : Oblivious (MachineM.reg r : MachineM σ UInt32) :=
  view fun hst => hst.reg r h

theorem low (d : LowRegister) : Oblivious (MachineM.low d : MachineM σ UInt32) :=
  view fun hst => hst.low d

theorem putReg (r : Register) (value : UInt32) :
    Oblivious (MachineM.putReg r value : MachineM σ Unit) := change fun hst => hst.setReg r value

theorem putLow (d : LowRegister) (value : UInt32) :
    Oblivious (MachineM.putLow d value : MachineM σ Unit) := putReg d.wide value

theorem carry : Oblivious (MachineM.view (·.isFlag .carry) : MachineM σ Bool) :=
  view fun hst => hst.flag .carry (by decide)

theorem setFlag (f : Flag) (state : Bool) :
    Oblivious (MachineM.setFlag f state : MachineM σ Unit) := change fun hst => hst.setFlag f state

theorem setAccess (access : Access) : Oblivious (MachineM.setAccess access : MachineM σ Unit) :=
  change fun hst => hst.setAccess access

theorem idle : Oblivious (MachineM.idle : MachineM σ Unit) := (tick 1).seq (setAccess _)

end Oblivious

namespace Core

open MachineM

/-- The memory behind a core looks only at the system and leaves the processor's data alone. -/
structure SeesSystem (core : Core σ) : Prop where
  read : ∀ w address, Handheld.SeesSystem (core.read w address)
  write : ∀ w address value, Handheld.SeesSystem (core.write w address value)
  waitTime : ∀ w address access, Handheld.SeesSystem (core.waitTime w address access)

namespace SeesSystem

variable {core : Core σ}

/-! ## Memory -/

theorem wait (h : core.SeesSystem) (w : Width) (address : UInt32) (access : Access) :
    Oblivious (core.wait w address access) :=
  (Oblivious.onBoard (h.waitTime w address access)).bind fun _ => .tick _

theorem peek (h : core.SeesSystem) (w : Width) (address : UInt32) :
    Oblivious (core.peek w address) :=
  (Oblivious.onBoard (h.read w address)).bind fun _ => .pure _

theorem load (h : core.SeesSystem) (w : Width) (address : UInt32) (access : Access) :
    Oblivious (core.load w address access) :=
  (h.wait w address access).seq ((h.peek w address).bind fun _ => .pure _)

theorem store (h : core.SeesSystem) (w : Width) (address value : UInt32) (access : Access) :
    Oblivious (core.store w address value access) :=
  (h.wait w address access).seq (.onBoard (h.write w address _))

theorem loadRotated (h : core.SeesSystem) (address : UInt32) (access : Access) :
    Oblivious (core.loadRotated address access) :=
  (h.load .word address access).bind fun _ => .pure _

theorem loadSignedHalf (h : core.SeesSystem) (address : UInt32) (access : Access) :
    Oblivious (core.loadSignedHalf address access) :=
  (h.wait .half address access).seq ((h.peek .half address).bind fun _ => .pure _)

theorem loadSignedByte (h : core.SeesSystem) (address : UInt32) (access : Access) :
    Oblivious (core.loadSignedByte address access) :=
  (h.load .byte address access).bind fun _ => .pure _

/-! ## Data processing -/

theorem withSum (sum : Sum32) : Oblivious (Core.withSum sum : MachineM σ UInt32) :=
  (Oblivious.change fun hst => hst.withSum sum).seq (.pure _)

theorem withLogical (value : UInt32) : Oblivious (Core.withLogical value : MachineM σ UInt32) :=
  (Oblivious.change fun hst => hst.withNZ value).seq (.pure _)

theorem withShifted (shifted : Shifted) :
    Oblivious (Core.withShifted shifted : MachineM σ UInt32) :=
  (Oblivious.change fun hst => hst.withNZC shifted.value shifted.carry).seq (.pure _)

theorem executeShift (op : Thumb.ShiftOp) (d s : LowRegister) (amount : UInt32) :
    Oblivious (Core.executeShift op d s amount : MachineM σ Unit) := by
  refine (Oblivious.low s).bind fun a => Oblivious.carry.bind fun carry => ?_
  cases op with
  | lsl | lsr | asr => exact (withShifted _).bind fun value => .putLow d value
  | add | sub => exact (withSum _).bind fun value => .putLow d value

theorem executeImmediate (op : Thumb.ImmediateOp) (d : LowRegister) (value : UInt32) :
    Oblivious (Core.executeImmediate op d value : MachineM σ Unit) := by
  refine (Oblivious.low d).bind fun a => ?_
  cases op with
  | mov => exact (withLogical _).bind fun value => .putLow d value
  | cmp => exact (withSum _).bind fun _ => .pure _
  | add | sub => exact (withSum _).bind fun value => .putLow d value

theorem multiplyIdle (multiplier : UInt32) (isSigned : Bool) :
    Oblivious (Core.multiplyIdle multiplier isSigned : MachineM σ Unit) :=
  Oblivious.idle.seq (.tick _)

theorem executeThumbAlu (core : Core σ) (op : Thumb.AluOp) (d s : LowRegister) :
    Oblivious (core.executeThumbAlu op d s) := by
  have hput : ∀ value : UInt32,
      Oblivious (if op.writes then MachineM.putLow d value else pure () : MachineM σ Unit) :=
    fun value => .ite (.putLow d value) (.pure _)
  refine (Oblivious.low d).bind fun a => (Oblivious.low s).bind fun b =>
    Oblivious.carry.bind fun carry => ?_
  cases op with
  | and | eor | tst | orr | bic | mvn => exact (withLogical _).bind hput
  | lsl | lsr | asr | ror => exact (Oblivious.idle.seq (withShifted _)).bind hput
  | adc | sbc | neg | cmp | cmn => exact (withSum _).bind hput
  | mul =>
    refine (multiplyIdle a true).seq ((withLogical _).bind fun value => ?_)
    exact .ite ((Oblivious.setFlag .carry false).seq (hput value)) (hput value)

/-! ## Transfers -/

theorem executeThumbTransfer (h : core.SeesSystem) (op : Thumb.TransferOp) (d : LowRegister)
    (address : UInt32) : Oblivious (core.executeThumbTransfer op d address) := by
  have hload : ∀ {value : MachineM σ UInt32}, Oblivious value →
      Oblivious (value >>= fun x => MachineM.putLow d x >>= fun _ => MachineM.idle) :=
    fun hvalue => hvalue.bind fun x => (Oblivious.putLow d x).seq .idle
  have hstore : ∀ w, Oblivious (MachineM.low d >>= fun x =>
      core.store w address x Access.nonSequential >>= fun _ =>
        MachineM.setAccess Access.nonSequential) :=
    fun w => (Oblivious.low d).bind fun x => (h.store w address x _).seq (.setAccess _)
  cases op with
  | storeWord => exact hstore .word
  | storeHalf => exact hstore .half
  | storeByte => exact hstore .byte
  | loadSignedByte => exact hload (h.loadSignedByte address _)
  | loadWord => exact hload (h.loadRotated address _)
  | loadHalf => exact hload (h.load .half address _)
  | loadByte => exact hload (h.load .byte address _)
  | loadSignedHalf => exact hload (h.loadSignedHalf address _)

/-! ## Block transfers -/

theorem storeBlock (h : core.SeesSystem) {value : Register → CpuState → UInt32}
    {list : List Register}
    (hvalue : ∀ r ∈ list, ∀ {s t : CpuState}, s.SameData t → value r t = value r s)
    (address : UInt32) (access : Access) :
    Oblivious (core.storeBlock value list address access) := by
  induction list generalizing address access with
  | nil => exact .pure _
  | cons r list ih =>
    refine (Oblivious.view (hvalue r List.mem_cons_self)).bind fun x => ?_
    exact (h.store .word address x access).seq (ih (fun q hq => hvalue q (.tail r hq)) _ _)

theorem loadBlock (h : core.SeesSystem) (list : List Register) (address : UInt32)
    (access : Access) : Oblivious (core.loadBlock false list address access) := by
  induction list generalizing address access with
  | nil => exact .pure _
  | cons r list ih =>
    refine (h.load .word address access).bind fun value => .ite ?_ ?_
    · exact (ih _ _).bind fun _ => .pure _
    · exact (Oblivious.putReg r value).seq (ih _ _)

/-- The end of a transfer that loads no program counter. -/
theorem finishTransfer (n : Register) (newBase : UInt32) (moves load statusBit : Bool) :
    Oblivious (core.finishTransfer n newBase moves load statusBit none) := by
  have haccess := Oblivious.ite (p := load = true)
    (Oblivious.idle.seq (.pure ()) : Oblivious (MachineM.idle >>= fun _ => pure () : MachineM σ Unit))
    ((Oblivious.setAccess Access.nonSequential).seq (.pure ()))
  exact .ite ((Oblivious.putReg n newBase).seq haccess) haccess

/-- A block transfer of some registers below the program counter, from a base below it. -/
theorem blockTransfer (h : core.SeesSystem) {n : Register} (hn : n ≠ Register.pc) {set : UInt16}
    (hlist : Register.ofSet set ≠ []) (hpc : Register.pc ∉ Register.ofSet set) {t : BlockTransfer}
    (hstatus : t.statusBit = false) : Oblivious (core.blockTransfer n set t) := by
  have huser : t.userBank (Register.ofSet set) = false := by
    rw [BlockTransfer.userBank, hstatus, Bool.false_and]
  rw [blockTransfer_eq]
  simp only [List.isEmpty_iff, hlist, if_false, huser]
  refine (Oblivious.reg hn).bind fun base => .ite ?_ ?_
  · -- Without the program counter in the list there is no address to go on from.
    refine (h.loadBlock _ _ _).bind_of fun m => ?_
    have hnone : (core.loadBlock false (Register.ofSet set)
        (t.lowest base (Register.ofSet set).length) Access.nonSequential m).1 = none := by
      refine loadBlock_eq_none ?_ _ _ _ _
      rw [List.contains_eq_mem, decide_eq_false hpc]
    rw [hnone]
    exact finishTransfer _ _ _ _ _
  · refine (h.storeBlock ?_ _ _).seq (finishTransfer _ _ _ _ _)
    intro r hr s t hst
    have hrpc : r ≠ Register.pc := fun heq => hpc (heq ▸ hr)
    unfold storedValue
    rw [if_neg hrpc, if_neg hrpc, hst.reg r hrpc]
    rfl

/-! ## All instructions -/

/-- An instruction with a long form looks neither at the program counter nor at the instruction
set. -/
theorem runThumb (h : core.SeesSystem) {j : Thumb.Instruction} {i : Arm.Instruction}
    (hlong : j.expansion? = some i) (half : UInt16) : Oblivious (core.runThumb half j) := by
  have hlow : ∀ list : UInt8, Register.pc ∉ Register.ofSet list.toUInt16 := fun list =>
    Register.pc_not_mem_ofSet (list.toNat_lt.trans (by decide))
  cases j with
  | shift op d s amount => exact executeShift op d s amount
  | addSubtract subtract d s n =>
    refine (Oblivious.low s).bind fun a => (Oblivious.low n).bind fun b => ?_
    exact (withSum _).bind fun value => .putLow d value
  | immediate op d value => exact executeImmediate op d value
  | alu op d s => exact executeThumbAlu core op d s
  | transferRegister op d b o =>
    exact (Oblivious.low b).bind fun x => (Oblivious.low o).bind fun y =>
      h.executeThumbTransfer op d _
  | transferImmediate op d b offset =>
    exact (Oblivious.low b).bind fun x => h.executeThumbTransfer op d _
  | transferStack load d offset =>
    exact (Oblivious.reg (by decide)).bind fun x => h.executeThumbTransfer _ d _
  | push list lr =>
    obtain ⟨hlist, -⟩ := Thumb.blockExpansion?_eq_some.mp hlong
    refine h.blockTransfer (by decide) hlist (Register.pc_not_mem_ofSet ?_) rfl
    rw [UInt16.toNat_or]
    refine Nat.or_lt_two_pow (list.toNat_lt.trans (by decide)) ?_
    cases lr <;> decide
  | pop list pc =>
    cases pc with
    | true => cases hlong
    | false =>
      obtain ⟨hlist, -⟩ := Thumb.blockExpansion?_eq_some.mp hlong
      show Oblivious (core.blockTransfer Register.sp (list.toUInt16 ||| 0) (ascending true))
      rw [UInt16.or_zero]
      exact h.blockTransfer (by decide) hlist (hlow list) rfl
  | storeBlock b list =>
    obtain ⟨hlist, -⟩ := Thumb.blockExpansion?_eq_some.mp hlong
    exact h.blockTransfer (CpuState.wide_ne_pc b) hlist (hlow list) rfl
  | loadBlock b list =>
    obtain ⟨hlist, -⟩ := Thumb.blockExpansion?_eq_some.mp hlong
    exact h.blockTransfer (CpuState.wide_ne_pc b) hlist (hlow list) rfl
  | _ => cases hlong

end SeesSystem

/-! ## Short and long instructions -/

/-- A word that is always executed. -/
theorem executeArm_of_always {core : Core σ} {word : UInt32} (h : Arm.condition word = 14)
    (m : Machine σ) :
    core.executeArm word m = core.runArm word (Arm.decode core.processor.isV5 word) m := by
  apply core.executeArm_of_holds
  rw [h]
  exact m.cpu.holds_always

/-- A word with the long form of a short instruction does what the short one does. -/
theorem SeesSystem.executeThumb_beside {core : Core σ} (h : core.SeesSystem) {half : UInt16}
    {word : UInt32} {i : Arm.Instruction}
    (hlong : (Thumb.decode core.processor.isV5 half).expansion? = some i)
    (hdecode : Arm.decode core.processor.isV5 word = i) (hcondition : Arm.condition word = 14)
    {lag : UInt64} {m n : Machine σ} (hbeside : Beside lag m n) :
    Beside lag (core.executeThumb half m).2 (core.executeArm word n).2 := by
  have hsame : core.executeArm word n = core.executeThumb half n := by
    rw [executeArm_of_always hcondition, hdecode, executeThumb, core.runThumb_expansion hlong]
  rw [hsame]
  exact ((h.runThumb hlong half).run hbeside).2

/-- **A short instruction does what its long form does.** On machines with the same registers,
flags and memory the one is executed as a halfword and the other as a word. Then the machines
still have the same registers below the program counter, the same flags, the same memory and the
same kind of the next fetch, and both have taken the same time. -/
theorem executeThumb_expansion {core : Core σ} (hcore : core.SeesSystem) {half : UInt16}
    {i : Arm.Instruction}
    (hlong : (Thumb.decode core.processor.isV5 half).expansion? = some i) :
    ∃ word, Arm.decode core.processor.isV5 word = i ∧ Arm.condition word = 14 ∧
      ∀ {lag : UInt64} {m n : Machine σ}, Beside lag m n →
        Beside lag (core.executeThumb half m).2 (core.executeArm word n).2 := by
  obtain ⟨word, hcondition, hdecode⟩ :=
    (Thumb.small_decode core.processor.isV5 half).encodable core.processor.isV5 hlong
  exact ⟨word, hdecode, hcondition, hcore.executeThumb_beside hlong hdecode hcondition⟩

end Core

namespace FlatMemory

theorem fullCore_seesSystem (p : Processor) : (fullCore p).SeesSystem where
  read w address :=
    { value := fun h => by
        show FlatMemory.get _ _ _ = FlatMemory.get _ _ _
        rw [h]
      system := fun h => by
        show FlatMemory.record _ _ = FlatMemory.record _ _
        rw [h]
      cpu := fun b => .refl b.cpu }
  write w address value :=
    { value := fun _ => rfl
      system := fun h => by
        show FlatMemory.set (FlatMemory.record _ _) _ _ _ =
          FlatMemory.set (FlatMemory.record _ _) _ _ _
        rw [h]
      cpu := fun b => .refl b.cpu }
  waitTime w address access :=
    { value := fun h => by
        show FlatMemory.waitOf _ _ _ = FlatMemory.waitOf _ _ _
        rw [h]
      system := id
      cpu := fun b => .refl b.cpu }

/-- A machine that is about to multiply six and seven. -/
def factors (status : UInt32) : Machine FlatMemory where
  cpu := (CpuState.setReg { cpsr := status } 0 6).setReg 1 7
  system := {}
  log := {}

/-- A product of short and of long instructions. -/
theorem executeThumb_expansion_product :
    ∃ word, Arm.decode true word = .multiply .mul true 0 0 0 1 ∧
      ((fullCore .arm9).executeArm word (factors 0x1F)).2.cpu.reg 0 = 42 := by
  have hlong : (Thumb.decode (fullCore .arm9).processor.isV5 0x4348).expansion? =
      some (.multiply .mul true 0 0 0 1) := by decide
  obtain ⟨word, hdecode, -, hrun⟩ :=
    Core.executeThumb_expansion (fullCore_seesSystem .arm9) hlong
  have hbeside : Beside 0 (factors 0x3F) (factors 0x1F) := by
    refine ⟨⟨fun _ _ => rfl, fun f _ => ?_, rfl⟩, rfl, rfl⟩
    cases f <;> first | decide | contradiction
  exact ⟨word, hdecode, ((hrun hbeside).cpu.reg 0 (by decide)).trans (by decide)⟩

end FlatMemory
end Handheld
