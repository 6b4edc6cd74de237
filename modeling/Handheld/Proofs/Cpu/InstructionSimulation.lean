import Handheld.Cpu.Step
import Handheld.Proofs.Cpu.Simulation

/-!
# Instructions in lockstep

Both instruction sets, class by class, and then a whole step: cores whose callbacks agree execute
every instruction alike. A software interrupt enters an exception, which is not one of the changes
that `Simulation` allows, so it is left to whoever knows more about the relation.
-/

namespace Handheld.Simulation

open MachineM CpuState

variable {σ τ : Type} {c : Core σ} {d : Core τ} {R : Board σ → Board τ → Prop}

/-! ## Long instructions -/

theorem aluOperands (sim : Simulation c d R) (n : Register) (carry : Bool)
    (operand : Arm.Operand) :
    Related R (Core.aluOperands n carry operand) (Core.aluOperands n carry operand) := by
  cases operand with
  | immediate value rotate => exact (sim.reg n).bind fun _ => .pure _
  | shiftedImmediate m shift amount =>
    exact (sim.reg n).bind fun _ => (sim.reg m).bind fun _ => .pure _
  | shiftedRegister m shift amount =>
    refine sim.idle.seq ((sim.view _).bind fun a => (sim.view _).bind fun b => ?_)
    exact (sim.reg amount).bind fun _ => .pure _

/-- The status of a data-processing result differs from the old one in the flags alone. -/
theorem guardedBits_aluOutcome (result : UInt32 ⊕ Sum32) (carry : Bool) (status : UInt32) :
    guardedBits (Core.aluOutcome result carry status).2 = guardedBits status := by
  cases result with
  | inl value => exact guardedBits_withNZC status value carry
  | inr sum => exact guardedBits_withSum status sum

theorem executeAlu (sim : Simulation c d R) (op : Arm.AluOp) (setFlags : Bool)
    (n r : Register) (operand : Arm.Operand) :
    Related R (c.executeAlu op setFlags n r operand) (d.executeAlu op setFlags n r operand) := by
  unfold Core.executeAlu
  refine (sim.view _).bind fun carry => (sim.aluOperands n carry operand).bind fun p => ?_
  obtain ⟨a, b⟩ := p
  have hwrite : ∀ value, Related R (if op.writes then c.setReg r value else Pure.pure ())
      (if op.writes then d.setReg r value else Pure.pure ()) :=
    fun value => .ite (sim.setReg r value) (.pure _)
  cases setFlags with
  | false => exact (sim.view _).bind fun p => hwrite p.1
  | true =>
    simp only [↓reduceIte]
    -- The flags come first; a write to the program counter then replaces the whole status.
    refine sim.view_change (fun s => ?_) fun p => .optional (sim.change fun s => ?_) (hwrite p.1)
    · exact (Move.flags _ (guardedBits_aluOutcome _ _ _)).moves
    · split
      · exact (Move.restore s).moves
      · exact .refl

theorem executeMultiply (sim : Simulation c d R) (op : Arm.MulOp) (setFlags : Bool)
    (r n s m : Register) :
    Related R (c.executeMultiply op setFlags r n s m) (d.executeMultiply op setFlags r n s m) := by
  unfold Core.executeMultiply
  rw [sim.processor]
  refine (sim.reg m).bind fun a => (sim.reg s).bind fun b => (sim.reg n).bind fun low => ?_
  have hend : Related R
      (if setFlags && !d.processor.isV5 then
        MachineM.setFlag .carry false >>= fun _ => Core.multiplyIdle b (!op.isUnsigned)
        else Core.multiplyIdle b (!op.isUnsigned))
      (if setFlags && !d.processor.isV5 then
        MachineM.setFlag .carry false >>= fun _ => Core.multiplyIdle b (!op.isUnsigned)
        else Core.multiplyIdle b (!op.isUnsigned)) :=
    .optional (sim.setFlag (by decide) (by decide) false) (sim.multiplyIdle _ _)
  refine .ite (.optional (.tick 1) (.optional (sim.change fun t => ?_) ?_)) ?_
  · exact (Move.flags _ (guardedBits_withNZ _ _)).moves
  · exact (sim.setReg r _).seq hend
  · refine (sim.reg r).bind fun high => Related.seq (.tick _) ?_
    refine .ite ?_ ?_
    · refine (sim.setFlag (by decide) (by decide) _).seq ?_
      refine (sim.setFlag (by decide) (by decide) _).seq ?_
      exact (sim.setReg n _).seq ((sim.setReg r _).seq hend)
    · exact (sim.setReg n _).seq ((sim.setReg r _).seq hend)

theorem markSaturated (sim : Simulation c d R) (out : Bool) :
    Related R (Core.markSaturated out) (Core.markSaturated out) :=
  .ite (sim.setFlag (by decide) (by decide) true) (.pure _)

theorem executeHalfMultiply (sim : Simulation c d R) (op : Arm.HalfMulOp) (r n s m : Register)
    (xTop yTop : Bool) :
    Related R (c.executeHalfMultiply op r n s m xTop yTop)
      (d.executeHalfMultiply op r n s m xTop yTop) := by
  unfold Core.executeHalfMultiply
  refine (sim.reg m).bind fun a => (sim.reg n).bind fun b => (sim.reg s).bind fun y => ?_
  cases op with
  | smla => exact (sim.markSaturated _).seq (sim.setReg r _)
  | smlaw => exact (sim.markSaturated _).seq (sim.setReg r _)
  | smulw => exact sim.setReg r _
  | smlal =>
    refine (sim.reg r).bind fun high => (Related.tick 1).seq ?_
    exact (sim.setReg n _).seq (sim.setReg r _)
  | smul => exact sim.setReg r _

theorem executeSaturating (sim : Simulation c d R) (op : Arm.SaturatingOp) (r n m : Register) :
    Related R (c.executeSaturating op r n m) (d.executeSaturating op r n m) := by
  unfold Core.executeSaturating
  refine (sim.reg m).bind fun a => (sim.reg n).bind fun b => ?_
  exact (sim.markSaturated _).seq (sim.setReg r _)

/-- A write to the status in user mode reaches neither the mode nor the interrupt masks. -/
theorem guardedBits_mergeStatus (old source : UInt32) (flags : Bool) :
    guardedBits (Core.mergeStatus old source flags false) = guardedBits old := by
  cases flags with
  | false => rfl
  | true =>
    show guardedBits ((old &&& 0x00FFFFFF) ||| (source &&& 0xFF000000)) = guardedBits old
    rw [guardedBits_or, guardedBits_and rfl, guardedBits_and_eq_zero rfl, UInt32.or_zero]

theorem executeWriteStatus (sim : Simulation c d R) (source : Arm.StatusSource)
    (flags control saved : Bool) :
    Related R (Core.executeWriteStatus source flags control saved)
      (Core.executeWriteStatus source flags control saved) := by
  have hwrite : ∀ value, Related R
      (MachineM.change fun s =>
        let old := if saved then s.savedStatus else s.cpsr
        let new := Core.mergeStatus old value flags (control && s.mode != .user)
        if saved then s.setSavedStatus new else s.setCpsr (Word.setBit new 5 false))
      (MachineM.change fun s =>
        let old := if saved then s.savedStatus else s.cpsr
        let new := Core.mergeStatus old value flags (control && s.mode != .user)
        if saved then s.setSavedStatus new else s.setCpsr (Word.setBit new 5 false)) := by
    intro value
    refine sim.change fun s => ?_
    cases saved with
    | true => exact (Move.saved _).moves
    | false =>
      -- The status is written as a whole, so its guarded bits depend on what it is merged with.
      refine (Move.status _ fun hmode => ?_).moves
      have hbit := guardedBits_setBit (Core.mergeStatus s.cpsr value flags false)
        (f := .thumb) (by decide) (by decide) false
      rw [guardedBits_mergeStatus] at hbit
      simp only [hmode, bne_self_eq_false, Bool.and_false]
      exact hbit
  cases source with
  | immediate value => exact (Related.pure value).bind hwrite
  | register m => exact (sim.reg m).bind hwrite

theorem transferData (sim : Simulation c d R) (kind : Arm.TransferKind) (r : Register)
    (address : UInt32) :
    Related R (c.transferData kind r address) (d.transferData kind r address) := by
  cases kind with
  | loadByte => exact (sim.load .byte address _).bind fun _ => sim.setReg r _
  | loadSignedByte => exact (sim.loadSignedByte address _).bind fun _ => sim.setReg r _
  | loadHalf => exact (sim.load .half address _).bind fun _ => sim.setReg r _
  | loadSignedHalf => exact (sim.loadSignedHalf address _).bind fun _ => sim.setReg r _
  | loadWord => exact (sim.loadRotated address _).bind fun _ => sim.setLoaded r _
  | loadDouble =>
    refine (sim.load .word address _).bind fun low => ?_
    refine (sim.load .word (address + 4) _).bind fun high => ?_
    exact (sim.setReg r low).seq (sim.setReg (r + 1) high)
  | storeByte => exact (sim.view _).bind fun _ => sim.store .byte address _ _
  | storeHalf => exact (sim.view _).bind fun _ => sim.store .half address _ _
  | storeWord => exact (sim.view _).bind fun _ => sim.store .word address _ _
  | storeDouble =>
    refine (sim.view _).bind fun low => (sim.view _).bind fun high => ?_
    exact (sim.store .word address low _).seq (sim.store .word (address + 4) high _)

theorem executeTransfer (sim : Simulation c d R) (n r : Register) (offset : Arm.Offset)
    (mode : Arm.TransferMode) :
    Related R (c.executeTransfer n r offset mode) (d.executeTransfer n r offset mode) := by
  unfold Core.executeTransfer
  refine (sim.view _).bind fun distance => (sim.reg n).bind fun base => ?_
  refine (sim.transferData mode.kind r _).seq ?_
  exact .optional (sim.setReg n _) (sim.afterTransfer _)

theorem executeSwap (sim : Simulation c d R) (n r m : Register) (byte : Bool) :
    Related R (c.executeSwap n r m byte) (d.executeSwap n r m byte) := by
  unfold Core.executeSwap
  refine (sim.reg n).bind fun address => (sim.reg m).bind fun source => ?_
  have hstore : ∀ value, Related R
      (c.store (if byte then .byte else .word) address source Access.nonSequential >>= fun _ =>
        c.setReg r value >>= fun _ => MachineM.idle)
      (d.store (if byte then .byte else .word) address source Access.nonSequential >>= fun _ =>
        d.setReg r value >>= fun _ => MachineM.idle) :=
    fun value => (sim.store _ address source _).seq ((sim.setReg r value).seq sim.idle)
  exact .ite ((sim.load .byte address _).bind hstore) ((sim.loadRotated address _).bind hstore)

theorem executeReadCoprocessor (sim : Simulation c d R) (inst : UInt32) (p : Arm.Coprocessor) :
    Related R (c.executeReadCoprocessor inst p) (d.executeReadCoprocessor inst p) := by
  unfold Core.executeReadCoprocessor
  refine .ite (sim.skipUnknown inst) ?_
  refine (Related.onBoard (sim.controlRead _ _ _)).bind fun value => .ite ?_ (sim.setReg _ _)
  -- A value for the program counter goes to the four condition flags instead.
  refine sim.change fun s => (Move.flags _ ?_).moves
  rw [guardedBits_or, guardedBits_and rfl, guardedBits_and_eq_zero rfl, UInt32.or_zero]

theorem executeWriteCoprocessor (sim : Simulation c d R) (inst : UInt32) (p : Arm.Coprocessor) :
    Related R (c.executeWriteCoprocessor inst p) (d.executeWriteCoprocessor inst p) := by
  unfold Core.executeWriteCoprocessor
  refine .ite (sim.skipUnknown inst) ?_
  exact (sim.view _).bind fun _ => .onBoard (sim.controlWrite _ _ _ _)

/-- Leave a return address in the link register. -/
theorem link (sim : Simulation c d R) (f : CpuState → UInt32) :
    Related R (MachineM.change fun s => s.setReg Register.lr (f s))
      (MachineM.change fun s => s.setReg Register.lr (f s)) :=
  sim.change fun _ => (Move.reg _ _).moves

theorem runArm (sim : Simulation c d R) (word : UInt32) (inst : Arm.Instruction)
    (hcall : ∀ comment, inst = .softwareInterrupt comment →
      Related R (c.softwareInterrupt comment) (d.softwareInterrupt comment)) :
    Related R (c.runArm word inst) (d.runArm word inst) := by
  cases inst with
  | unknown => exact sim.skipUnknown word
  | softwareInterrupt comment => exact hcall comment rfl
  | branch offset link => exact .optional (sim.link _) (sim.jumpBy offset)
  | callShort offset =>
    refine (sim.view _).bind fun target => Related.seq (sim.change fun s => ?_) (sim.jump target)
    exact (Move.reg _ _).moves.tail (Move.setFlag _ (by decide) (by decide) true)
  | exchange m => exact (sim.reg m).bind fun target => sim.exchange target
  | callExchange m =>
    exact (sim.reg m).bind fun target => (sim.link _).seq (sim.exchange target)
  | alu op setFlags n r operand => exact sim.executeAlu op setFlags n r operand
  | multiply op setFlags r n s m => exact sim.executeMultiply op setFlags r n s m
  | halfMultiply op r n s m xTop yTop => exact sim.executeHalfMultiply op r n s m xTop yTop
  | leadingZeros r m => exact (sim.reg m).bind fun _ => sim.setReg r _
  | saturating op r n m => exact sim.executeSaturating op r n m
  | readStatus r saved => exact (sim.view _).bind fun _ => sim.setReg r _
  | writeStatus source flags control saved =>
    exact sim.executeWriteStatus source flags control saved
  | transfer n r offset mode => exact sim.executeTransfer n r offset mode
  | blockTransfer n list statusBit mode => exact sim.blockTransfer n list _
  | swap n r m byte => exact sim.executeSwap n r m byte
  | readCoprocessor p => exact sim.executeReadCoprocessor word p
  | writeCoprocessor p => exact sim.executeWriteCoprocessor word p
  | preload => exact .pure _

theorem executeArm (sim : Simulation c d R) (word : UInt32)
    (hcall : ∀ comment, Arm.decode d.processor.isV5 word = .softwareInterrupt comment →
      Related R (c.softwareInterrupt comment) (d.softwareInterrupt comment)) :
    Related R (c.executeArm word) (d.executeArm word) := by
  unfold Core.executeArm
  rw [sim.processor]
  exact (sim.view _).bind fun _ => .ite (sim.runArm word _ hcall) (.pure _)

/-! ## Short instructions -/

theorem withSum (sim : Simulation c d R) (sum : Sum32) :
    Related R (Core.withSum sum) (Core.withSum sum) :=
  Related.seq (sim.change fun _ => (Move.flags _ (guardedBits_withSum _ _)).moves) (.pure _)

theorem withLogical (sim : Simulation c d R) (value : UInt32) :
    Related R (Core.withLogical value) (Core.withLogical value) :=
  Related.seq (sim.change fun _ => (Move.flags _ (guardedBits_withNZ _ _)).moves) (.pure _)

theorem withShifted (sim : Simulation c d R) (shifted : Shifted) :
    Related R (Core.withShifted shifted) (Core.withShifted shifted) :=
  Related.seq (sim.change fun _ => (Move.flags _ (guardedBits_withNZC _ _ _)).moves) (.pure _)

theorem executeShift (sim : Simulation c d R) (op : Thumb.ShiftOp) (r s : LowRegister)
    (amount : UInt32) :
    Related R (Core.executeShift op r s amount) (Core.executeShift op r s amount) := by
  unfold Core.executeShift
  refine (sim.low s).bind fun a => (sim.view _).bind fun carry => ?_
  cases op with
  | lsl | lsr | asr => exact (sim.withShifted _).bind fun _ => sim.putLow r _
  | add | sub => exact (sim.withSum _).bind fun _ => sim.putLow r _

theorem executeImmediate (sim : Simulation c d R) (op : Thumb.ImmediateOp) (r : LowRegister)
    (value : UInt32) :
    Related R (Core.executeImmediate op r value) (Core.executeImmediate op r value) := by
  unfold Core.executeImmediate
  refine (sim.low r).bind fun a => ?_
  cases op with
  | mov => exact (sim.withLogical value).bind fun _ => sim.putLow r _
  | cmp => exact (sim.withSum _).bind fun _ => .pure _
  | add | sub => exact (sim.withSum _).bind fun _ => sim.putLow r _

theorem shiftByRegister (sim : Simulation c d R) (kind : ShiftKind) (a b : UInt32)
    (carry : Bool) :
    Related R (Core.shiftByRegister kind a b carry) (Core.shiftByRegister kind a b carry) :=
  sim.idle.seq (sim.withShifted _)

theorem executeThumbAlu (sim : Simulation c d R) (op : Thumb.AluOp) (r s : LowRegister) :
    Related R (c.executeThumbAlu op r s) (d.executeThumbAlu op r s) := by
  unfold Core.executeThumbAlu
  rw [sim.processor]
  refine (sim.low r).bind fun a => (sim.low s).bind fun b => (sim.view _).bind fun carry => ?_
  have hwrite : ∀ value, Related R (if op.writes then MachineM.putLow r value else Pure.pure ())
      (if op.writes then MachineM.putLow r value else Pure.pure ()) :=
    fun value => .ite (sim.putLow r value) (.pure _)
  cases op with
  | and | tst | eor | orr | bic | mvn => exact (sim.withLogical _).bind hwrite
  | lsl | lsr | asr | ror => exact (sim.shiftByRegister _ a b carry).bind hwrite
  | adc | sbc | neg | cmp | cmn => exact (sim.withSum _).bind hwrite
  | mul =>
    refine (sim.multiplyIdle a true).seq ((sim.withLogical _).bind fun value => ?_)
    have hpure := (Related.pure (R := R) value).bind hwrite
    exact .optional (sim.setFlag (by decide) (by decide) false) hpure

theorem executeThumbTransfer (sim : Simulation c d R) (op : Thumb.TransferOp) (r : LowRegister)
    (address : UInt32) :
    Related R (c.executeThumbTransfer op r address) (d.executeThumbTransfer op r address) := by
  have hload : ∀ {f : MachineM σ UInt32} {g : MachineM τ UInt32}, Related R f g →
      Related R (f >>= fun value => MachineM.putLow r value >>= fun _ => MachineM.idle)
        (g >>= fun value => MachineM.putLow r value >>= fun _ => MachineM.idle) :=
    fun h => h.bind fun _ => (sim.putLow r _).seq sim.idle
  have hstore : ∀ w, Related R
      (MachineM.low r >>= fun value => c.store w address value Access.nonSequential >>= fun _ =>
        MachineM.setAccess Access.nonSequential)
      (MachineM.low r >>= fun value => d.store w address value Access.nonSequential >>= fun _ =>
        MachineM.setAccess Access.nonSequential) :=
    fun w => (sim.low r).bind fun _ => (sim.store w address _ _).seq (sim.setAccess _)
  cases op with
  | storeWord => exact hstore .word
  | storeHalf => exact hstore .half
  | storeByte => exact hstore .byte
  | loadSignedByte => exact hload (sim.loadSignedByte address _)
  | loadWord => exact hload (sim.loadRotated address _)
  | loadHalf => exact hload (sim.load .half address _)
  | loadByte => exact hload (sim.load .byte address _)
  | loadSignedHalf => exact hload (sim.loadSignedHalf address _)

theorem executeCall (sim : Simulation c d R) (offset : UInt32) (short : Bool) :
    Related R (c.executeCall offset short) (d.executeCall offset short) := by
  unfold Core.executeCall
  refine (sim.reg Register.lr).bind fun upper => (sim.link _).seq (.ite (sim.jump _) ?_)
  exact (sim.setFlag (by decide) (by decide) false).seq (sim.jump _)

theorem runThumb (sim : Simulation c d R) (half : UInt16) (inst : Thumb.Instruction)
    (hcall : ∀ comment, inst = .softwareInterrupt comment →
      Related R (c.softwareInterrupt comment) (d.softwareInterrupt comment)) :
    Related R (c.runThumb half inst) (d.runThumb half inst) := by
  cases inst with
  | unknown => exact sim.skipUnknown _
  | shift op r s amount => exact sim.executeShift op r s amount
  | addSubtract subtract r s n =>
    refine (sim.low s).bind fun a => (sim.low n).bind fun b => ?_
    exact (sim.withSum _).bind fun _ => sim.putLow r _
  | immediate op r value => exact sim.executeImmediate op r value
  | alu op r s => exact sim.executeThumbAlu op r s
  | highAdd s r => exact (sim.reg r).bind fun a => (sim.reg s).bind fun b => sim.setReg r _
  | highCompare s r =>
    refine (sim.reg r).bind fun a => (sim.reg s).bind fun b => ?_
    exact (sim.withSum _).bind fun _ => .pure _
  | highMove s r => exact (sim.reg s).bind fun _ => sim.setReg r _
  | exchange s link =>
    exact (sim.reg s).bind fun target => .optional (sim.link _) (sim.exchange target)
  | loadLiteral r offset =>
    refine (sim.view _).bind fun address => (sim.load .word address _).bind fun value => ?_
    exact (sim.putLow r value).seq sim.idle
  | transferRegister op r b o =>
    exact (sim.low b).bind fun base => (sim.low o).bind fun offset =>
      sim.executeThumbTransfer op r _
  | transferImmediate op r b offset =>
    exact (sim.low b).bind fun base => sim.executeThumbTransfer op r _
  | transferStack load r offset =>
    exact (sim.reg _).bind fun base => sim.executeThumbTransfer _ r _
  | relativeAddress sp r offset => exact (sim.view _).bind fun base => sim.putLow r _
  | moveStack offset => exact (sim.reg _).bind fun base => sim.putReg _ _
  | push list lr => exact sim.blockTransfer _ _ _
  | pop list pc => exact sim.blockTransfer _ _ _
  | storeBlock b list => exact sim.blockTransfer _ _ _
  | loadBlock b list => exact sim.blockTransfer _ _ _
  | branchIf condition offset => exact (sim.view _).bind fun _ => .ite (sim.jumpBy offset) (.pure _)
  | softwareInterrupt comment => exact hcall comment rfl
  | branch offset => exact sim.jumpBy offset
  | prepareCall offset => exact sim.link _
  | call offset short => exact sim.executeCall offset short

theorem executeThumb (sim : Simulation c d R) (half : UInt16)
    (hcall : ∀ comment, Thumb.decode d.processor.isV5 half = .softwareInterrupt comment →
      Related R (c.softwareInterrupt comment) (d.softwareInterrupt comment)) :
    Related R (c.executeThumb half) (d.executeThumb half) := by
  unfold Core.executeThumb
  rw [sim.processor]
  exact sim.runThumb half _ hcall

end Handheld.Simulation

namespace Handheld

open MachineM CpuState

variable {σ τ : Type}

/-! ## Fetching and executing -/

namespace Core

variable (core : Core σ)

/-- Fetch the next opcode. Tells with it whether it is a short one. -/
def fetchNext : MachineM σ (Bool × UInt32) := do
  core.revalidate
  let thumb ← view (·.isFlag .thumb)
  let inst ← core.fetch (if thumb then .half else .word)
  return (thumb, inst)

/-- Execute an opcode that was fetched. -/
def execute (thumb : Bool) (inst : UInt32) : MachineM σ Unit := do
  let s ← view id
  note (.executing core.processor thumb s.executing inst s.cpsr)
  if thumb then core.executeThumb inst.toUInt16 else core.executeArm inst

/-- The machine that executes an opcode, once this is logged. -/
def noted (thumb : Bool) (inst : UInt32) (m : Machine σ) : Machine σ :=
  (note (.executing core.processor thumb m.cpu.executing inst m.cpu.cpsr) m).2

theorem executeNext_eq :
    core.executeNext = core.fetchNext >>= fun p => core.execute p.1 p.2 := by
  unfold executeNext fetchNext execute
  rfl

/-- A word is executed as what it encodes if its condition holds or it has none. -/
theorem executeArm_eq (word : UInt32) (m : Machine σ) :
    core.executeArm word m =
      if (core.processor.isV5 && Arm.condition word == 15) || m.cpu.holds (Arm.condition word) then
        core.runArm word (Arm.decode core.processor.isV5 word) m
      else ((), m) := by
  have hexecute : core.executeArm word m =
      (if (core.processor.isV5 && Arm.condition word == 15) || m.cpu.holds (Arm.condition word) then
        core.runArm word (Arm.decode core.processor.isV5 word)
      else pure () : MachineM σ Unit) m := rfl
  rw [hexecute]
  split <;> rfl

theorem executeArm_of_holds {word : UInt32} {m : Machine σ}
    (h : m.cpu.holds (Arm.condition word) = true) :
    core.executeArm word m = core.runArm word (Arm.decode core.processor.isV5 word) m := by
  rw [executeArm_eq, h, Bool.or_true, if_pos rfl]

theorem execute_short (inst : UInt32) (m : Machine σ) :
    core.execute true inst m =
      core.runThumb inst.toUInt16 (Thumb.decode core.processor.isV5 inst.toUInt16)
        (core.noted true inst m) := rfl

theorem execute_long (word : UInt32) (m : Machine σ) :
    core.execute false word m =
      if (core.processor.isV5 && Arm.condition word == 15) || m.cpu.holds (Arm.condition word) then
        core.runArm word (Arm.decode core.processor.isV5 word) (core.noted false word m)
      else ((), core.noted false word m) :=
  core.executeArm_eq word (core.noted false word m)

theorem execute_of_holds {word : UInt32} {m : Machine σ}
    (h : m.cpu.holds (Arm.condition word) = true) :
    core.execute false word m =
      core.runArm word (Arm.decode core.processor.isV5 word) (core.noted false word m) := by
  rw [execute_long, h, Bool.or_true, if_pos rfl]

/-- The comment of an opcode that is a software interrupt. -/
def callComment? (thumb : Bool) (inst : UInt32) : Option UInt8 :=
  if thumb then
    match Thumb.decode core.processor.isV5 inst.toUInt16 with
    | .softwareInterrupt comment => some comment
    | _ => none
  else
    match Arm.decode core.processor.isV5 inst with
    | .softwareInterrupt comment => some comment
    | _ => none

end Core

namespace Simulation

variable {c : Core σ} {d : Core τ} {R : Board σ → Board τ → Prop}

theorem fetchNext (sim : Simulation c d R) : Related R c.fetchNext d.fetchNext := by
  unfold Core.fetchNext
  refine sim.revalidate.seq ((sim.view _).bind fun thumb => ?_)
  exact (sim.fetch _).bind fun _ => .pure _

theorem execute (sim : Simulation c d R) (thumb : Bool) (inst : UInt32)
    (hcall : ∀ comment, d.callComment? thumb inst = some comment →
      Related R (c.softwareInterrupt comment) (d.softwareInterrupt comment)) :
    Related R (c.execute thumb inst) (d.execute thumb inst) := by
  unfold Core.execute
  rw [sim.processor]
  refine (sim.view _).bind fun s => (sim.note _).seq ?_
  cases thumb with
  | true =>
    refine sim.executeThumb _ fun comment hdecode => hcall comment ?_
    rw [Core.callComment?, if_pos rfl, hdecode]
  | false =>
    refine sim.executeArm _ fun comment hdecode => hcall comment ?_
    rw [Core.callComment?, if_neg Bool.false_ne_true, hdecode]

theorem wake (sim : Simulation c d R) :
    Related R (MachineM.change ({ · with isHalted := false }))
      (MachineM.change ({ · with isHalted := false })) :=
  sim.change fun _ => (Move.prefetch _ _ _ _).moves

end Simulation

/-! ## Whole steps -/

/-- The callbacks that exceptions use agree, too, and boards stay related whatever happens to the
processor. -/
structure FullSimulation (c : Core σ) (d : Core τ) (R : Board σ → Board τ → Prop) : Prop
    extends Simulation c d R where
  replace : ∀ {b e} (s : CpuState), R b e → R { b with cpu := s } { e with cpu := s }
  vectorBase : ∀ {b e}, R b e → c.vectorBase b.system = d.vectorBase e.system
  onException : ∀ x, Agree R (c.onException x) (d.onException x)
  nativeCall : ∀ comment, Agree R (c.nativeCall comment) (d.nativeCall comment)

namespace FullSimulation

variable {c : Core σ} {d : Core τ} {R : Board σ → Board τ → Prop}

theorem set (sim : FullSimulation c d R) (f : CpuState → CpuState) :
    Related R (MachineM.change f) (MachineM.change f) := by
  intro m n h
  refine ⟨rfl, ?_, h.cycles⟩
  show R { m.toBoard with cpu := f m.cpu } { n.toBoard with cpu := f n.cpu }
  rw [← sim.cpu h.board]
  exact sim.replace _ h.board

theorem raise (sim : FullSimulation c d R) (x : Exception) :
    Related R (c.raise x) (d.raise x) := by
  have hbase : Related R (ask c.vectorBase) (ask d.vectorBase) :=
    fun m n h => ⟨sim.vectorBase h.board, h⟩
  unfold Core.raise
  refine (Related.onBoard (sim.onException x)).seq ((sim.set _).seq ?_)
  refine (sim.view _).bind fun status => (sim.set _).seq ((sim.set _).seq ((sim.set _).seq ?_))
  exact hbase.bind fun base => sim.jump _

theorem softwareInterrupt (sim : FullSimulation c d R) (comment : UInt8) :
    Related R (c.softwareInterrupt comment) (d.softwareInterrupt comment) := by
  unfold Core.softwareInterrupt
  refine (sim.raise _).seq ((Related.onBoard (sim.nativeCall comment)).bind fun cycles => ?_)
  cases cycles with
  | none => exact .pure _
  | some cycles =>
    refine (Related.tick cycles).seq ((sim.reg _).bind fun target => ?_)
    exact (sim.set _).seq (sim.jump target)

theorem takeInterrupt (sim : FullSimulation c d R) : Related R c.takeInterrupt d.takeInterrupt := by
  have hpending : Related R (ask fun system => (c.interrupts system).shouldInterrupt)
      (ask fun system => (d.interrupts system).shouldInterrupt) :=
    fun m n h => ⟨congrArg InterruptController.shouldInterrupt (sim.interrupts h.board), h⟩
  unfold Core.takeInterrupt
  rw [sim.processor]
  refine hpending.bind fun pending => (sim.view _).bind fun masked => .ite ?_ (.pure _)
  exact (sim.note _).seq ((sim.set _).seq ((sim.raise _).seq (.pure _)))

theorem stepBody (sim : FullSimulation c d R) : Related R c.stepBody d.stepBody := by
  have hwoken : Related R (ask fun system => (c.interrupts system).isPending)
      (ask fun system => (d.interrupts system).isPending) :=
    fun m n h => ⟨congrArg InterruptController.isPending (sim.interrupts h.board), h⟩
  have hnext : Related R
      (c.takeInterrupt >>= fun taken => if !taken then c.executeNext else pure ())
      (d.takeInterrupt >>= fun taken => if !taken then d.executeNext else pure ()) := by
    rw [Core.executeNext_eq, Core.executeNext_eq]
    refine sim.takeInterrupt.bind fun taken => .ite ?_ (.pure _)
    exact sim.fetchNext.bind fun p => sim.execute _ _ fun comment _ => sim.softwareInterrupt comment
  unfold Core.stepBody
  rw [sim.processor]
  refine (sim.view _).bind fun halted => .ite ?_ hnext
  refine hwoken.bind fun pending => .ite (.pure _) ?_
  exact (sim.note _).seq (sim.wake.seq hnext)

/-- Cores whose callbacks agree take the same time for a step and stay in lockstep. -/
theorem step (sim : FullSimulation c d R) {b : Board σ} {e : Board τ} (h : R b e) :
    (c.step b).1 = (d.step e).1 ∧ R (c.step b).2 (d.step e).2 := by
  obtain ⟨-, halike⟩ := sim.stepBody { toBoard := b } { toBoard := e } ⟨h, rfl⟩
  exact ⟨halike.cycles, halike.board⟩

end FullSimulation
end Handheld
