import Handheld.Proofs.Cpu.Course

/-!
# The course of an instruction

Both instruction sets, class by class: a steady property survives every instruction that does not
skid. Short instructions never do.
-/

namespace Handheld

open Word

variable {σ : Type}

/-- Whether a long instruction changes the instruction set or moves the program counter without a
jump. A comparison that sets the flags and names the program counter restores a saved status that
chooses short instructions; a block transfer from the program counter on moves its base without
loading it. -/
def Arm.Instruction.skids (s : CpuState) : Arm.Instruction → Bool
  | .alu op setFlags _ d _ =>
    setFlags && d == Register.pc && !op.writes && s.mode.hasSavedStatus && isBit s.savedStatus 5
  | .blockTransfer n set _ mode =>
    let list := Register.ofSet set
    n == Register.pc && !list.isEmpty && mode.writeback &&
      !(mode.load && list.contains Register.pc)
  | _ => false

namespace Core

open MachineM CpuState

variable {core : Core σ} {P : CpuState → Prop}

/-- The end of a transfer that moves its base and loads no program counter. -/
theorem finishTransfer_moved (core : Core σ) (n : Register) (newBase : UInt32)
    (load statusBit : Bool) (m : Machine σ) :
    (core.finishTransfer n newBase true load statusBit none m).2.cpu =
      { m.cpu with accessType := Access.nonSequential }.setReg n newBase := by
  cases load <;> rfl

/-- A load hands on a program counter if its list has one. -/
theorem isSome_loadBlock (userBank : Bool) (list : List Register) (address : UInt32)
    (access : Access) (m : Machine σ) :
    (core.loadBlock userBank list address access m).1.isSome = list.contains Register.pc := by
  induction list generalizing address access m with
  | nil => rfl
  | cons r list ih =>
    let loaded := core.load .word address access m
    have hcons : core.loadBlock userBank (r :: list) address access m =
        (if r = Register.pc then do
          let _ ← core.loadBlock userBank list (address + 4) Access.sequential
          return some loaded.1
        else do
          change fun s => if userBank then s.setRegInMode .user r loaded.1 else s.setReg r loaded.1
          core.loadBlock userBank list (address + 4) Access.sequential :
            MachineM σ (Option UInt32)) loaded.2 := rfl
    rw [hcons, List.contains_cons]
    by_cases hr : r = Register.pc
    · rw [if_pos hr, hr, beq_self_eq_true, Bool.true_or]
      rfl
    · rw [if_neg hr, beq_false_of_ne (Ne.symm hr), Bool.false_or]
      exact ih _ _ _

theorem loadBlock_eq_none {list : List Register} (h : list.contains Register.pc = false)
    (userBank : Bool) (address : UInt32) (access : Access) (m : Machine σ) :
    (core.loadBlock userBank list address access m).1 = none := by
  rw [← Option.isNone_iff_eq_none, ← Option.not_isSome, isSome_loadBlock, h]
  rfl

/-! ## Block transfers -/

namespace Stable

theorem storeBlock (h : core.Stable P) (value : Register → CpuState → UInt32)
    (list : List Register) (address : UInt32) (access : Access) :
    Keeps P (core.storeBlock value list address access) := by
  induction list generalizing address access with
  | nil => exact .pure _
  | cons r list ih => exact (Keeps.view _).bind fun _ => (h.store .word address _ access).seq (ih _ _)

theorem loadBlock (h : core.Stable P) (userBank : Bool) (list : List Register)
    (address : UInt32) (access : Access) :
    Keeps P (core.loadBlock userBank list address access) := by
  induction list generalizing address access with
  | nil => exact .pure _
  | cons r list ih =>
    unfold Core.loadBlock
    -- The program counter is only handed on; the others go to their registers one by one.
    refine (h.load .word address access).bind fun value => .branch (fun _ => ?_) fun hr => ?_
    · exact (ih _ _).bind fun _ => .pure _
    · refine (h.change fun s => ?_).seq (ih _ _)
      split
      · exact .setRegInMode s .user hr value
      · exact .setReg s hr value

end Stable

namespace Steady

theorem transferNothing (h : core.Steady P) (n : Register) (t : BlockTransfer) :
    Keeps P (core.transferNothing n t) := by
  unfold Core.transferNothing
  refine (Keeps.reg n).bind fun base => (h.setReg n _).seq (.ite (.ite ?_ ?_) (.pure _))
  · exact (h.load .word _ _).bind fun _ => (h.jump _).keeps
  · exact (Keeps.view _).bind fun _ => h.store .word _ _ _

/-- A loaded program counter is jumped to. -/
theorem endTransfer_some (h : core.Steady P) (statusBit : Bool) (address : UInt32) :
    Lands P (core.endTransfer statusBit (some address)) :=
  .ite (.after fun _ => h.jump address) (h.setLoaded_pc address)

theorem endTransfer (h : core.Steady P) (statusBit : Bool) (target : Option UInt32) :
    Keeps P (core.endTransfer statusBit target) := by
  cases target with
  | none => exact .pure _
  | some address => exact (h.endTransfer_some statusBit address).keeps

theorem finishTransfer (h : core.Steady P) {n : Register} {moves : Bool}
    (hn : moves = true → n ≠ Register.pc) (newBase : UInt32) (load statusBit : Bool)
    (target : Option UInt32) :
    Keeps P (core.finishTransfer n newBase moves load statusBit target) := by
  have haccess : Keeps P
      (if load then MachineM.idle >>= fun _ => core.endTransfer statusBit target
      else MachineM.setAccess Access.nonSequential >>= fun _ =>
        core.endTransfer statusBit target) :=
    .ite (h.idle.seq (h.endTransfer _ _)) ((h.setAccess _).seq (h.endTransfer _ _))
  exact .branch (fun hmoves => (h.putReg (hn hmoves) newBase).seq haccess) fun _ => haccess

theorem finishTransfer_some (h : core.Steady P) (n : Register) (newBase : UInt32)
    (moves load statusBit : Bool) (address : UInt32) :
    Lands P (core.finishTransfer n newBase moves load statusBit (some address)) := by
  have haccess : Lands P
      (if load then MachineM.idle >>= fun _ => core.endTransfer statusBit (some address)
      else MachineM.setAccess Access.nonSequential >>= fun _ =>
        core.endTransfer statusBit (some address)) :=
    .ite (.after fun _ => h.endTransfer_some _ _) (.after fun _ => h.endTransfer_some _ _)
  exact .ite (.after fun _ => haccess) haccess

/-- A transfer that loads no program counter leaves it alone or at the new base. -/
theorem finishTransfer_pc (h : core.Steady P) {moves : Bool} {newBase : UInt32}
    (hmoves : moves = true → ∀ s : CpuState, s.pc = newBase → P s) (load statusBit : Bool)
    {m : Machine σ} (hm : P m.cpu) :
    P (core.finishTransfer Register.pc newBase moves load statusBit none m).2.cpu := by
  cases moves with
  | false =>
    have hunmoved : false = true → Register.pc ≠ Register.pc := fun hfalse => nomatch hfalse
    exact (h.finishTransfer hunmoved newBase load statusBit none).cpu m hm
  | true =>
    rw [finishTransfer_moved]
    exact hmoves rfl _ (by rw [CpuState.pc, CpuState.reg_setReg, if_pos rfl])

theorem blockTransfer (h : core.Steady P) {n : Register} (hn : n ≠ Register.pc) (set : UInt16)
    (t : BlockTransfer) : Keeps P (core.blockTransfer n set t) := by
  rw [Core.blockTransfer_eq]
  refine .ite ((h.transferNothing n t).seq (h.afterTransfer _)) ?_
  refine (Keeps.reg n).bind fun base => .ite ?_ ?_
  · exact (h.loadBlock _ _ _ _).bind fun target => h.finishTransfer (fun _ => hn) _ _ _ target
  · exact (h.storeBlock _ _ _ _).seq (h.finishTransfer (fun _ => hn) _ _ _ none)

/-- What a block transfer from the program counter on comes to: the only thing that can take the
property away is a move of the base. -/
theorem blockTransfer_pc (h : core.Steady P) (set : UInt16) (t : BlockTransfer) {m : Machine σ}
    (hm : P m.cpu)
    (hskid : Register.ofSet set ≠ [] → t.writeback = true →
      (t.load && (Register.ofSet set).contains Register.pc) = false →
      ∀ s : CpuState, (4 ∣ m.cpu.pc.toNat → 4 ∣ s.pc.toNat) → P s) :
    P (core.blockTransfer Register.pc set t m).2.cpu := by
  by_cases hlist : Register.ofSet set = []
  · rw [Core.blockTransfer_eq, hlist]
    exact ((h.transferNothing Register.pc t).seq (h.afterTransfer _)).cpu m hm
  · let list := Register.ofSet set
    have hmoved : t.movesBase core.processor.isV5 Register.pc list = true →
        (t.load && list.contains Register.pc) = false →
        ∀ s : CpuState, s.pc = t.newBase (m.cpu.reg Register.pc) list.length → P s := by
      intro hmoves hstays s hpc
      have hwriteback : t.writeback = true := (Bool.and_eq_true_iff.mp hmoves).1
      refine hskid hlist hwriteback hstays s fun haligned => ?_
      rw [hpc]
      exact four_dvd_newBase t haligned _
    cases hload : t.load with
    | true =>
      rw [core.blockTransfer_of_load hlist hload]
      let loaded := core.loadBlock (t.userBank list) list (t.lowest (m.cpu.reg Register.pc)
        list.length) Access.nonSequential m
      have hloaded : P loaded.2.cpu := (h.loadBlock _ _ _ _).cpu m hm
      have hsome : loaded.1.isSome = list.contains Register.pc := isSome_loadBlock ..
      show P (core.finishTransfer _ _ _ true t.statusBit loaded.1 loaded.2).2.cpu
      cases htarget : loaded.1 with
      | some address => exact (h.finishTransfer_some _ _ _ _ _ address).cpu loaded.2
      | none =>
        rw [htarget] at hsome
        exact h.finishTransfer_pc (fun hmoves => hmoved hmoves (by rw [← hsome]; simp)) _ _ hloaded
    | false =>
      rw [core.blockTransfer_of_store hlist hload]
      have hstored := (h.storeBlock (core.storedValue Register.pc list.head?
        (t.newBase (m.cpu.reg Register.pc) list.length) (t.userBank list)) list
        (t.lowest (m.cpu.reg Register.pc) list.length) Access.nonSequential).cpu m hm
      exact h.finishTransfer_pc (fun hmoves => hmoved hmoves (by simp [hload])) _ _ hstored

end Steady

/-! ## Long instructions -/

/-- Reading the operands changes nothing but the kind of the next fetch. -/
theorem aluOperands_cpu (n : Register) (carry : Bool) (operand : Arm.Operand) (m : Machine σ) :
    ∃ access, (aluOperands n carry operand m).2.cpu = { m.cpu with accessType := access } := by
  cases operand with
  | immediate => exact ⟨m.cpu.accessType, rfl⟩
  | shiftedImmediate => exact ⟨m.cpu.accessType, rfl⟩
  | shiftedRegister => exact ⟨Access.nonSequential, rfl⟩

/-- Once the flags of a result are set, the processor still executes at the same place and in the
same mode. -/
theorem aluOutcome_flags (s : CpuState) (access : Access) (result : UInt32 ⊕ Sum32)
    (carry : Bool) :
    let t := { s with accessType := access, cpsr := (aluOutcome result carry s.cpsr).2 }
    s.SameCourse t ∧ t.mode = s.mode ∧
      (s.mode.hasSavedStatus = true → t.savedStatus = s.savedStatus) := by
  intro t
  have hmode : t.mode = s.mode := ofStatus_congr (Simulation.guardedBits_aluOutcome _ _ _)
  refine ⟨⟨rfl, isBit_aluOutcome result carry s.cpsr (by decide), rfl, rfl⟩, hmode, ?_⟩
  intro hsaved
  unfold CpuState.savedStatus
  simp only [hmode, hsaved, if_true]
  rfl

/-- An operation that sets the flags does so first; a write to the program counter, or a
comparison in its place, then restores the saved status. -/
theorem executeAlu_flags (core : Core σ) (op : Arm.AluOp) (n d : Register)
    (operand : Arm.Operand) (m : Machine σ) :
    ∃ (flagged : Machine σ) (value : UInt32),
      core.executeAlu op true n d operand m =
          (if d = Register.pc then do
            change fun s => if s.mode.hasSavedStatus then s.setCpsr s.savedStatus else s
            if op.writes then core.setReg d value else pure ()
          else if op.writes then core.setReg d value else pure () : MachineM σ Unit) flagged ∧
        m.cpu.SameCourse flagged.cpu ∧ flagged.cpu.mode = m.cpu.mode ∧
        (m.cpu.mode.hasSavedStatus = true →
          flagged.cpu.savedStatus = m.cpu.savedStatus) := by
  let read := aluOperands n (m.cpu.isFlag .carry) operand m
  let result := aluResult op read.1.1 read.1.2.value (m.cpu.isFlag .carry)
  let outcome := aluOutcome result read.1.2.carry read.2.cpu.cpsr
  let flagged : Machine σ := { read.2 with cpu := { read.2.cpu with cpsr := outcome.2 } }
  obtain ⟨access, hread⟩ : ∃ access, read.2.cpu = { m.cpu with accessType := access } :=
    aluOperands_cpu n _ operand m
  have hcpu : flagged.cpu = { m.cpu with
      accessType := access, cpsr := (aluOutcome result read.1.2.carry m.cpu.cpsr).2 } := by
    show { read.2.cpu with cpsr := (aluOutcome result read.1.2.carry read.2.cpu.cpsr).2 } = _
    rw [hread]
  refine ⟨flagged, outcome.1, rfl, ?_⟩
  rw [hcpu]
  exact aluOutcome_flags m.cpu access result read.1.2.carry

namespace Steady

/-- A return from an exception without a jump skids if the saved status chooses short
instructions. -/
theorem restore (h : core.Steady P) {s : CpuState} (hs : P s) (harm : s.isFlag .thumb = false)
    (hskid : s.mode.hasSavedStatus = true → isBit s.savedStatus 5 = true →
      ∀ t : CpuState, (4 ∣ s.pc.toNat → 4 ∣ t.pc.toNat) → P t) :
    P (if s.mode.hasSavedStatus then s.setCpsr s.savedStatus else s) := by
  split
  · next hsaved =>
    cases hthumb : isBit s.savedStatus 5 with
    | false => exact h.congr (.setCpsr s (hthumb.trans harm.symm)) hs
    | true =>
      refine hskid hsaved hthumb _ fun haligned => ?_
      rw [CpuState.pc, reg_setCpsr_pc]
      exact haligned
  · exact hs

theorem executeAlu (h : core.Steady P) (op : Arm.AluOp) (setFlags : Bool) (n d : Register)
    (operand : Arm.Operand) {m : Machine σ} (hm : P m.cpu) (harm : m.cpu.isFlag .thumb = false)
    (hskid : (Arm.Instruction.alu op setFlags n d operand).skids m.cpu = true →
      ∀ s : CpuState, (4 ∣ m.cpu.pc.toNat → 4 ∣ s.pc.toNat) → P s) :
    P (core.executeAlu op setFlags n d operand m).2.cpu := by
  have hwrite : ∀ value, Keeps P (if op.writes then core.setReg d value else pure ()) :=
    fun value => .ite (h.setReg d value) (.pure _)
  cases setFlags with
  | false =>
    let read := aluOperands n (m.cpu.isFlag .carry) operand m
    obtain ⟨access, hread⟩ : ∃ access, read.2.cpu = { m.cpu with accessType := access } :=
      aluOperands_cpu n _ operand m
    refine (hwrite _).cpu read.2 (h.congr ?_ hm)
    rw [hread]
    exact ⟨rfl, rfl, rfl, rfl⟩
  | true =>
    obtain ⟨flagged, value, hexecute, hcourse, hmode, hsavedStatus⟩ :=
      executeAlu_flags core op n d operand m
    have hflagged : P flagged.cpu := h.congr hcourse hm
    rw [hexecute]
    by_cases hd : d = Register.pc
    · rw [if_pos hd]
      cases hwrites : op.writes with
      | true =>
        have hland : Lands P (core.setReg d value) := by
          rw [Core.setReg, if_pos hd]
          exact h.jump value
        exact (Lands.after fun _ => hland).cpu flagged
      | false =>
        refine h.restore hflagged (hcourse.thumb.trans harm) ?_
        intro hsaved hshort
        rw [hmode] at hsaved
        rw [hsavedStatus hsaved] at hshort
        rw [hcourse.pc]
        exact hskid (by simp [Arm.Instruction.skids, hd, hwrites, hsaved, hshort])
    · rw [if_neg hd]
      exact (hwrite value).cpu flagged hflagged

/-- The negative, zero and carry flags are none that choose the instruction set. -/
theorem withNZ (h : core.Steady P) (value : UInt32) :
    Keeps P (MachineM.change fun s => { s with cpsr := Arithmetic.withNZ s.cpsr value } :
      MachineM σ Unit) := by
  refine h.change fun s => .withStatus s ?_
  exact (Arithmetic.isBit_withNZ s.cpsr value (by decide)).trans rfl

theorem executeMultiply (h : core.Steady P) (op : Arm.MulOp) (setFlags : Bool)
    (r n s m : Register) : Keeps P (core.executeMultiply op setFlags r n s m) := by
  unfold Core.executeMultiply
  refine (Keeps.reg m).bind fun a => (Keeps.reg s).bind fun b => (Keeps.reg n).bind fun low => ?_
  have hend : Keeps P (if setFlags && !core.processor.isV5 then
      MachineM.setFlag .carry false >>= fun _ => Core.multiplyIdle b (!op.isUnsigned)
      else Core.multiplyIdle b (!op.isUnsigned) : MachineM σ Unit) :=
    .optional (h.setFlag (by decide) false) (h.multiplyIdle _ _)
  refine .ite (.optional (.tick 1) (.optional (h.withNZ _) ?_)) ?_
  · exact (h.setReg r _).seq hend
  · refine (Keeps.reg r).bind fun high => Keeps.seq (.tick _) (.ite ?_ ?_)
    · refine (h.setFlag (by decide) _).seq ((h.setFlag (by decide) _).seq ?_)
      exact (h.setReg n _).seq ((h.setReg r _).seq hend)
    · exact (h.setReg n _).seq ((h.setReg r _).seq hend)

theorem markSaturated (h : core.Steady P) (out : Bool) :
    Keeps P (Core.markSaturated out : MachineM σ Unit) :=
  .ite (h.setFlag (by decide) true) (.pure _)

theorem executeHalfMultiply (h : core.Steady P) (op : Arm.HalfMulOp) (r n s m : Register)
    (xTop yTop : Bool) : Keeps P (core.executeHalfMultiply op r n s m xTop yTop) := by
  unfold Core.executeHalfMultiply
  refine (Keeps.reg m).bind fun a => (Keeps.reg n).bind fun b => (Keeps.reg s).bind fun y => ?_
  cases op with
  | smla => exact (h.markSaturated _).seq (h.setReg r _)
  | smlaw => exact (h.markSaturated _).seq (h.setReg r _)
  | smulw => exact h.setReg r _
  | smlal =>
    refine (Keeps.reg r).bind fun high => (Keeps.tick 1).seq ?_
    exact (h.setReg n _).seq (h.setReg r _)
  | smul => exact h.setReg r _

theorem executeSaturating (h : core.Steady P) (op : Arm.SaturatingOp) (r n m : Register) :
    Keeps P (core.executeSaturating op r n m) := by
  unfold Core.executeSaturating
  refine (Keeps.reg m).bind fun a => (Keeps.reg n).bind fun b => ?_
  exact (h.markSaturated _).seq (h.setReg r _)

/-- A write to the status clears the bit that chooses short instructions. -/
theorem executeWriteStatus (h : core.Steady P) (source : Arm.StatusSource)
    (flags control saved : Bool) {m : Machine σ} (hm : P m.cpu)
    (harm : m.cpu.isFlag .thumb = false) :
    P (Core.executeWriteStatus source flags control saved m).2.cpu := by
  have hwrite : ∀ value, P ((fun s : CpuState =>
      let old := if saved then s.savedStatus else s.cpsr
      let new := mergeStatus old value flags (control && s.mode != .user)
      if saved then s.setSavedStatus new else s.setCpsr (setBit new 5 false)) m.cpu) := by
    intro value
    cases saved with
    | true => exact h.congr (.setSavedStatus m.cpu _) hm
    | false =>
      refine h.congr (.setCpsr m.cpu ?_) hm
      rw [isBit_setBit _ _ (by decide) (by decide), if_pos rfl, harm]
  cases source with
  | immediate value => exact hwrite value
  | register r => exact hwrite (m.cpu.reg r)

theorem transferData (h : core.Steady P) (kind : Arm.TransferKind) (r : Register)
    (address : UInt32) : Keeps P (core.transferData kind r address) := by
  cases kind with
  | loadByte => exact (h.load .byte address _).bind fun _ => h.setReg r _
  | loadSignedByte => exact (h.loadSignedByte address _).bind fun _ => h.setReg r _
  | loadHalf => exact (h.load .half address _).bind fun _ => h.setReg r _
  | loadSignedHalf => exact (h.loadSignedHalf address _).bind fun _ => h.setReg r _
  | loadWord => exact (h.loadRotated address _).bind fun _ => h.setLoaded r _
  | loadDouble =>
    refine (h.load .word address _).bind fun low => ?_
    refine (h.load .word (address + 4) _).bind fun high => ?_
    exact (h.setReg r low).seq (h.setReg (r + 1) high)
  | storeByte => exact (Keeps.view _).bind fun _ => h.store .byte address _ _
  | storeHalf => exact (Keeps.view _).bind fun _ => h.store .half address _ _
  | storeWord => exact (Keeps.view _).bind fun _ => h.store .word address _ _
  | storeDouble =>
    refine (Keeps.view _).bind fun low => (Keeps.view _).bind fun high => ?_
    exact (h.store .word address low _).seq (h.store .word (address + 4) high _)

theorem executeTransfer (h : core.Steady P) (n r : Register) (offset : Arm.Offset)
    (mode : Arm.TransferMode) : Keeps P (core.executeTransfer n r offset mode) := by
  unfold Core.executeTransfer
  refine (Keeps.view _).bind fun distance => (Keeps.reg n).bind fun base => ?_
  refine (h.transferData mode.kind r _).seq ?_
  exact .optional (h.setReg n _) (h.afterTransfer _)

theorem executeSwap (h : core.Steady P) (n r m : Register) (byte : Bool) :
    Keeps P (core.executeSwap n r m byte) := by
  unfold Core.executeSwap
  refine (Keeps.reg n).bind fun address => (Keeps.reg m).bind fun source => ?_
  have hstore : ∀ value, Keeps P
      (core.store (if byte then .byte else .word) address source Access.nonSequential >>= fun _ =>
        core.setReg r value >>= fun _ => MachineM.idle) :=
    fun value => (h.store _ address source _).seq ((h.setReg r value).seq h.idle)
  exact .ite ((h.load .byte address _).bind hstore) ((h.loadRotated address _).bind hstore)

theorem executeReadCoprocessor (h : core.Steady P) (inst : UInt32) (p : Arm.Coprocessor) :
    Keeps P (core.executeReadCoprocessor inst p) := by
  unfold Core.executeReadCoprocessor
  refine .ite (Stable.skipUnknown inst) ?_
  refine (Keeps.onBoard fun b => (h.within.controlRead _ _ _ b).2).bind fun value =>
    .ite ?_ (h.setReg _ _)
  -- A value for the program counter goes to the four condition flags instead.
  refine h.change fun s => .withStatus s ?_
  rw [isBit_or _ _ (by decide), isBit_and _ _ (by decide), isBit_and _ _ (by decide)]
  simp only [show isBit (0x0FFFFFFF : UInt32) 5 = true from rfl,
    show isBit (0xF0000000 : UInt32) 5 = false from rfl, Bool.and_true, Bool.and_false,
    Bool.or_false]
  rfl

theorem executeWriteCoprocessor (h : core.Steady P) (inst : UInt32) (p : Arm.Coprocessor) :
    Keeps P (core.executeWriteCoprocessor inst p) := by
  refine .ite (Stable.skipUnknown inst) ((Keeps.view _).bind fun value => .onBoard fun b => ?_)
  exact (h.within.controlWrite _ _ _ value b).2

/-- Leave a return address in the link register. -/
theorem link (h : core.Steady P) (f : CpuState → UInt32) :
    Keeps P (MachineM.change fun s => s.setReg Register.lr (f s) : MachineM σ Unit) :=
  h.change fun s => .setReg s (by decide) (f s)

/-- A long instruction keeps a steady property unless it skids, and a skid leaves the program
counter at the address of a word. -/
theorem runArm (h : core.Steady P) (word : UInt32) (inst : Arm.Instruction) {m : Machine σ}
    (hm : P m.cpu) (harm : m.cpu.isFlag .thumb = false)
    (hskid : inst.skids m.cpu = true →
      ∀ s : CpuState, (4 ∣ m.cpu.pc.toNat → 4 ∣ s.pc.toNat) → P s) :
    P (core.runArm word inst m).2.cpu := by
  cases inst with
  | unknown => exact (Stable.skipUnknown word).cpu m hm
  | softwareInterrupt comment => exact (h.softwareInterrupt comment).cpu m
  | branch offset link => exact (Keeps.optional (h.link _) (h.jumpBy offset).keeps).cpu m hm
  | callShort offset =>
    have hcall : Lands P (core.runArm word (.callShort offset)) :=
      .after fun target => .after fun _ => h.jump target
    exact hcall.cpu m
  | exchange r =>
    have hexchange : Lands P (core.runArm word (.exchange r)) := .after fun target => h.exchange target
    exact hexchange.cpu m
  | callExchange r =>
    have hcall : Lands P (core.runArm word (.callExchange r)) :=
      .after fun target => .after fun _ => h.exchange target
    exact hcall.cpu m
  | alu op setFlags n r operand => exact h.executeAlu op setFlags n r operand hm harm hskid
  | multiply op setFlags r n s r' => exact (h.executeMultiply op setFlags r n s r').cpu m hm
  | halfMultiply op r n s r' xTop yTop =>
    exact (h.executeHalfMultiply op r n s r' xTop yTop).cpu m hm
  | leadingZeros r r' => exact ((Keeps.reg r').bind fun _ => h.setReg r _).cpu m hm
  | saturating op r n r' => exact (h.executeSaturating op r n r').cpu m hm
  | readStatus r saved => exact ((Keeps.view _).bind fun _ => h.setReg r _).cpu m hm
  | writeStatus source flags control saved =>
    exact h.executeWriteStatus source flags control saved hm harm
  | transfer n r offset mode => exact (h.executeTransfer n r offset mode).cpu m hm
  | blockTransfer n set statusBit mode =>
    by_cases hn : n = Register.pc
    · subst hn
      refine h.blockTransfer_pc set _ hm fun hlist hwriteback hstays => hskid ?_
      have hlist' : (Register.ofSet set).isEmpty = false := by simpa using hlist
      show (Register.pc == Register.pc && !(Register.ofSet set).isEmpty && mode.writeback &&
        !(mode.load && (Register.ofSet set).contains Register.pc)) = true
      rw [hlist', show mode.writeback = true from hwriteback,
        show (mode.load && (Register.ofSet set).contains Register.pc) = false from hstays]
      rfl
    · exact (h.blockTransfer hn set _).cpu m hm
  | swap n r r' byte => exact (h.executeSwap n r r' byte).cpu m hm
  | readCoprocessor p => exact (h.executeReadCoprocessor word p).cpu m hm
  | writeCoprocessor p => exact (h.executeWriteCoprocessor word p).cpu m hm
  | preload => exact hm

theorem executeArm (h : core.Steady P) (word : UInt32) {m : Machine σ} (hm : P m.cpu)
    (harm : m.cpu.isFlag .thumb = false)
    (hskid : (core.processor.isV5 && Arm.condition word == 15) = true ∨
        m.cpu.holds (Arm.condition word) = true →
      (Arm.decode core.processor.isV5 word).skids m.cpu = true →
      ∀ s : CpuState, (4 ∣ m.cpu.pc.toNat → 4 ∣ s.pc.toNat) → P s) :
    P (core.executeArm word m).2.cpu := by
  rw [core.executeArm_eq]
  split
  · next hholds =>
    exact h.runArm word _ hm harm (hskid (by simpa [Bool.or_eq_true] using hholds))
  · exact hm

/-! ## Short instructions -/

theorem withSum (h : core.Steady P) (sum : Sum32) :
    Keeps P (Core.withSum sum : MachineM σ UInt32) := by
  refine (h.change fun s => .withStatus s ?_).bind fun _ => .pure _
  exact (Arithmetic.isBit_withSum s.cpsr sum (by decide)).trans rfl

theorem withLogical (h : core.Steady P) (value : UInt32) :
    Keeps P (Core.withLogical value : MachineM σ UInt32) := (h.withNZ value).bind fun _ => .pure _

theorem withShifted (h : core.Steady P) (shifted : Shifted) :
    Keeps P (Core.withShifted shifted : MachineM σ UInt32) := by
  refine (h.change fun s => .withStatus s ?_).bind fun _ => .pure _
  exact (Arithmetic.isBit_withNZC s.cpsr _ _ (by decide)).trans rfl

theorem executeShift (h : core.Steady P) (op : Thumb.ShiftOp) (r s : LowRegister)
    (amount : UInt32) : Keeps P (Core.executeShift op r s amount : MachineM σ Unit) := by
  unfold Core.executeShift
  refine (Keeps.low s).bind fun a => (Keeps.view _).bind fun carry => ?_
  cases op with
  | lsl | lsr | asr => exact (h.withShifted _).bind fun _ => h.putLow r _
  | add | sub => exact (h.withSum _).bind fun _ => h.putLow r _

theorem executeImmediate (h : core.Steady P) (op : Thumb.ImmediateOp) (r : LowRegister)
    (value : UInt32) : Keeps P (Core.executeImmediate op r value : MachineM σ Unit) := by
  unfold Core.executeImmediate
  refine (Keeps.low r).bind fun a => ?_
  cases op with
  | mov => exact (h.withLogical value).bind fun _ => h.putLow r _
  | cmp => exact (h.withSum _).bind fun _ => .pure _
  | add | sub => exact (h.withSum _).bind fun _ => h.putLow r _

theorem shiftByRegister (h : core.Steady P) (kind : ShiftKind) (a b : UInt32) (carry : Bool) :
    Keeps P (Core.shiftByRegister kind a b carry : MachineM σ UInt32) := h.idle.seq (h.withShifted _)

theorem executeThumbAlu (h : core.Steady P) (op : Thumb.AluOp) (r s : LowRegister) :
    Keeps P (core.executeThumbAlu op r s) := by
  unfold Core.executeThumbAlu
  refine (Keeps.low r).bind fun a => (Keeps.low s).bind fun b => (Keeps.view _).bind fun carry => ?_
  have hwrite : ∀ value, Keeps P (if op.writes then MachineM.putLow r value else Pure.pure () :
      MachineM σ Unit) := fun value => .ite (h.putLow r value) (.pure _)
  cases op with
  | and | tst | eor | orr | bic | mvn => exact (h.withLogical _).bind hwrite
  | lsl | lsr | asr | ror => exact (h.shiftByRegister _ a b carry).bind hwrite
  | adc | sbc | neg | cmp | cmn => exact (h.withSum _).bind hwrite
  | mul =>
    refine (h.multiplyIdle a true).seq ((h.withLogical _).bind fun value => ?_)
    exact .optional (h.setFlag (by decide) false) ((Keeps.pure value).bind hwrite)

theorem executeThumbTransfer (h : core.Steady P) (op : Thumb.TransferOp) (r : LowRegister)
    (address : UInt32) : Keeps P (core.executeThumbTransfer op r address) := by
  have hload : ∀ {value : MachineM σ UInt32}, Keeps P value →
      Keeps P (value >>= fun x => MachineM.putLow r x >>= fun _ => MachineM.idle) :=
    fun hvalue => hvalue.bind fun _ => (h.putLow r _).seq h.idle
  have hstore : ∀ w, Keeps P (MachineM.low r >>= fun value =>
      core.store w address value Access.nonSequential >>= fun _ =>
        MachineM.setAccess Access.nonSequential) :=
    fun w => (Keeps.low r).bind fun _ => (h.store w address _ _).seq (h.setAccess _)
  cases op with
  | storeWord => exact hstore .word
  | storeHalf => exact hstore .half
  | storeByte => exact hstore .byte
  | loadSignedByte => exact hload (h.loadSignedByte address _)
  | loadWord => exact hload (h.loadRotated address _)
  | loadHalf => exact hload (h.load .half address _)
  | loadByte => exact hload (h.load .byte address _)
  | loadSignedHalf => exact hload (h.loadSignedHalf address _)

theorem executeCall (h : core.Steady P) (offset : UInt32) (short : Bool) :
    Lands P (core.executeCall offset short) := by
  unfold Core.executeCall
  exact .after fun upper => .after fun _ => .ite (h.jump _) (.after fun _ => h.jump _)

/-- Every short instruction keeps a steady property. -/
theorem runThumb (h : core.Steady P) (half : UInt16) (inst : Thumb.Instruction) :
    Keeps P (core.runThumb half inst) := by
  have hsp : Register.sp ≠ Register.pc := by decide
  cases inst with
  | unknown => exact Stable.skipUnknown _
  | shift op r s amount => exact h.executeShift op r s amount
  | addSubtract subtract r s n =>
    refine (Keeps.low s).bind fun a => (Keeps.low n).bind fun b => ?_
    exact (h.withSum _).bind fun _ => h.putLow r _
  | immediate op r value => exact h.executeImmediate op r value
  | alu op r s => exact h.executeThumbAlu op r s
  | highAdd s r => exact (Keeps.reg r).bind fun a => (Keeps.reg s).bind fun b => h.setReg r _
  | highCompare s r =>
    refine (Keeps.reg r).bind fun a => (Keeps.reg s).bind fun b => ?_
    exact (h.withSum _).bind fun _ => .pure _
  | highMove s r => exact (Keeps.reg s).bind fun _ => h.setReg r _
  | exchange s link =>
    exact (Keeps.reg s).bind fun target => .optional (h.link _) (h.exchange target).keeps
  | loadLiteral r offset =>
    refine (Keeps.view _).bind fun address => (h.load .word address _).bind fun value => ?_
    exact (h.putLow r value).seq h.idle
  | transferRegister op r b o =>
    exact (Keeps.low b).bind fun base => (Keeps.low o).bind fun offset =>
      h.executeThumbTransfer op r _
  | transferImmediate op r b offset =>
    exact (Keeps.low b).bind fun base => h.executeThumbTransfer op r _
  | transferStack load r offset =>
    exact (Keeps.reg _).bind fun base => h.executeThumbTransfer _ r _
  | relativeAddress sp r offset => exact (Keeps.view _).bind fun base => h.putLow r _
  | moveStack offset => exact (Keeps.reg _).bind fun base => h.putReg hsp _
  | push list lr => exact h.blockTransfer hsp _ _
  | pop list pc => exact h.blockTransfer hsp _ _
  | storeBlock b list => exact h.blockTransfer (wide_ne_pc b) _ _
  | loadBlock b list => exact h.blockTransfer (wide_ne_pc b) _ _
  | branchIf condition offset =>
    exact (Keeps.view _).bind fun _ => .ite (h.jumpBy offset).keeps (.pure _)
  | softwareInterrupt comment => exact (h.softwareInterrupt comment).keeps
  | branch offset => exact (h.jumpBy offset).keeps
  | prepareCall offset => exact h.link fun s => Address.displace s.pc offset
  | call offset short => exact (h.executeCall offset short).keeps

end Steady

/-! ## Opcodes -/

/-- Whether an opcode skids on the processor's state. -/
def skids (core : Core σ) (thumb : Bool) (inst : UInt32) (s : CpuState) : Bool :=
  !thumb && ((core.processor.isV5 && Arm.condition inst == 15) || s.holds (Arm.condition inst)) &&
    (Arm.decode core.processor.isV5 inst).skids s

/-- An opcode of the current instruction set keeps a steady property unless it skids. -/
theorem Steady.execute (h : core.Steady P) {thumb : Bool} (inst : UInt32) {m : Machine σ}
    (hm : P m.cpu) (hthumb : m.cpu.isFlag .thumb = thumb)
    (hskid : core.skids thumb inst m.cpu = true →
      ∀ s : CpuState, (4 ∣ m.cpu.pc.toNat → 4 ∣ s.pc.toNat) → P s) :
    P (core.execute thumb inst m).2.cpu := by
  cases thumb with
  | true =>
    rw [execute_short]
    exact (h.runThumb _ _).cpu (core.noted true inst m) hm
  | false =>
    refine h.executeArm inst (m := core.noted false inst m) hm hthumb fun hholds hdecoded =>
      hskid ?_
    show (((core.processor.isV5 && Arm.condition inst == 15) ||
      m.cpu.holds (Arm.condition inst)) &&
        (Arm.decode core.processor.isV5 inst).skids m.cpu) = true
    rw [Bool.and_eq_true, Bool.or_eq_true]
    exact ⟨hholds, hdecoded⟩

end Core
end Handheld
