import Handheld.Proofs.Cpu.Confinement

/-!
# The cost of an instruction

An instruction is put together out of a small number of parts, each of which takes less than
`2 ^ 16` cycles: an access, an internal cycle, or the time of a multiplication. Counted this way,
no instruction takes as many cycles as a word can hold, so the cycles of a step are their true
sum. In particular a step that takes no time at all is one of a halted processor.

* `Takes` bounds the parts of a computation, with a rule for each way to put computations together;
* the lemmas behind it follow both instruction sets;
* `Core.Timed.step` is what comes out for a whole step.
-/

namespace Handheld

variable {σ α β : Type}

/-! ## Parts -/

/-- The computation takes at most `n` parts. -/
structure Takes (n : ℕ) (f : MachineM σ α) : Prop where
  cycles : ∀ m, ∃ k ≤ n * 0xFFFF, (f m).2.cycles = m.cycles + UInt64.ofNat k

/-- The computation takes at most `n` parts, and some time. -/
structure TakesTime (n : ℕ) (f : MachineM σ α) : Prop where
  cycles : ∀ m, ∃ k ≤ n * 0xFFFF, 0 < k ∧ (f m).2.cycles = m.cycles + UInt64.ofNat k

theorem TakesTime.takes {n : ℕ} {f : MachineM σ α} (h : TakesTime n f) : Takes n f := by
  refine ⟨fun m => ?_⟩
  obtain ⟨k, hk, -, hcycles⟩ := h.cycles m
  exact ⟨k, hk, hcycles⟩

namespace Takes

variable {n a b : ℕ} {f g : MachineM σ α} {k : α → MachineM σ β}

theorem mono (h : Takes a f) (hab : a ≤ b) : Takes b f := by
  refine ⟨fun m => ?_⟩
  obtain ⟨k, hk, hcycles⟩ := h.cycles m
  exact ⟨k, hk.trans (Nat.mul_le_mul_right _ hab), hcycles⟩

/-- What leaves the clock alone takes no part. -/
theorem free (h : ∀ m, (f m).2.cycles = m.cycles) : Takes n f := by
  refine ⟨fun m => ⟨0, Nat.zero_le _, ?_⟩⟩
  rw [h]
  exact (UInt64.add_zero _).symm

theorem pure (x : α) : Takes n (Pure.pure x : MachineM σ α) := free fun _ => rfl

theorem tick {cycles : UInt64} (h : cycles.toNat ≤ n * 0xFFFF) :
    Takes n (MachineM.tick cycles : MachineM σ Unit) := by
  refine ⟨fun m => ⟨cycles.toNat, h, ?_⟩⟩
  rw [UInt64.ofNat_toNat]
  rfl

theorem bind (hf : Takes a f) (hk : ∀ x, Takes b (k x)) : Takes (a + b) (f >>= k) := by
  refine ⟨fun m => ?_⟩
  obtain ⟨i, hi, hfirst⟩ := hf.cycles m
  obtain ⟨j, hj, hsecond⟩ := (hk (f m).1).cycles (f m).2
  refine ⟨i + j, by omega, ?_⟩
  show (k (f m).1 (f m).2).2.cycles = _
  rw [hsecond, hfirst, UInt64.ofNat_add, UInt64.add_assoc]

theorem seq {k : MachineM σ β} (hf : Takes a f) (hk : Takes b k) :
    Takes (a + b) (f >>= fun _ => k) := hf.bind fun _ => hk

/-- What follows a computation that takes no part. -/
theorem after (hf : Takes 0 f) (hk : ∀ x, Takes n (k x)) : Takes n (f >>= k) := by
  have h := hf.bind hk
  rwa [Nat.zero_add] at h

theorem ite {p : Prop} [Decidable p] (hf : Takes n f) (hg : Takes n g) :
    Takes n (if p then f else g) := by
  by_cases h : p
  · rw [if_pos h]
    exact hf
  · rw [if_neg h]
    exact hg

/-- A computation that is left out under a condition, and what follows in either case. -/
theorem optional {p : Prop} [Decidable p] {f : MachineM σ Unit} {k : Unit → MachineM σ β}
    (hf : Takes a f) (hk : Takes b (k ())) : Takes (a + b) (if p then f >>= k else k ()) :=
  .ite (hf.bind fun _ => hk) (hk.mono (by omega))

end Takes

namespace TakesTime

variable {a b : ℕ} {f : MachineM σ α} {k : α → MachineM σ β}

theorem mono (h : TakesTime a f) (hab : a ≤ b) : TakesTime b f := by
  refine ⟨fun m => ?_⟩
  obtain ⟨k, hk, hpositive, hcycles⟩ := h.cycles m
  exact ⟨k, hk.trans (Nat.mul_le_mul_right _ hab), hpositive, hcycles⟩

theorem bind (hf : TakesTime a f) (hk : ∀ x, Takes b (k x)) : TakesTime (a + b) (f >>= k) := by
  refine ⟨fun m => ?_⟩
  obtain ⟨i, hi, hpositive, hfirst⟩ := hf.cycles m
  obtain ⟨j, hj, hsecond⟩ := (hk (f m).1).cycles (f m).2
  refine ⟨i + j, by omega, by omega, ?_⟩
  show (k (f m).1 (f m).2).2.cycles = _
  rw [hsecond, hfirst, UInt64.ofNat_add, UInt64.add_assoc]

/-- What follows a computation that takes no part. -/
theorem after (hf : Takes 0 f) (hk : ∀ x, TakesTime b (k x)) : TakesTime b (f >>= k) := by
  refine ⟨fun m => ?_⟩
  obtain ⟨i, hi, hfirst⟩ := hf.cycles m
  obtain ⟨j, hj, hpositive, hsecond⟩ := (hk (f m).1).cycles (f m).2
  obtain rfl : i = 0 := by omega
  refine ⟨j, hj, hpositive, ?_⟩
  show (k (f m).1 (f m).2).2.cycles = _
  rw [hsecond, hfirst]
  exact congrArg (· + UInt64.ofNat j) (UInt64.add_zero m.cycles)

end TakesTime

namespace Takes

open MachineM

variable {n : ℕ}

/-! ## The processor's state -/

theorem onBoard (act : BoardM σ α) : Takes n (onBoard act) := free fun _ => rfl

/-- What follows an act of the board, known to be one of its results. -/
theorem onBoard_bind {act : BoardM σ α} {k : α → MachineM σ β}
    (h : ∀ b, Takes n (k (act b).1)) : Takes n (MachineM.onBoard act >>= k) :=
  ⟨fun m => (h m.toBoard).cycles { m with toBoard := (act m.toBoard).2 }⟩

theorem view (f : CpuState → α) : Takes n (view f : MachineM σ α) := free fun _ => rfl

theorem ask (f : σ → α) : Takes n (ask f) := free fun _ => rfl

theorem change (f : CpuState → CpuState) : Takes n (change f : MachineM σ Unit) :=
  free fun _ => rfl

theorem reg (r : Register) : Takes n (reg r : MachineM σ UInt32) := view _

theorem low (r : LowRegister) : Takes n (low r : MachineM σ UInt32) := view _

theorem putReg (r : Register) (value : UInt32) : Takes n (putReg r value : MachineM σ Unit) :=
  change _

theorem putLow (r : LowRegister) (value : UInt32) : Takes n (putLow r value : MachineM σ Unit) :=
  change _

theorem setFlag (f : Flag) (state : Bool) : Takes n (setFlag f state : MachineM σ Unit) :=
  change _

theorem setAccess (access : Access) : Takes n (setAccess access : MachineM σ Unit) := change _

theorem note (entry : LogEntry) : Takes n (note entry : MachineM σ Unit) := onBoard _

theorem idle : Takes 1 (idle : MachineM σ Unit) :=
  (tick (n := 1) (by decide)).seq (b := 0) (setAccess _)

/-- An extra cycle behind a load, none behind a store. -/
theorem afterTransfer (load : Bool) :
    Takes 1 (if load then MachineM.idle else MachineM.setAccess Access.nonSequential :
      MachineM σ Unit) := .ite idle (setAccess _)

theorem multiplierSteps_le (isSigned : Bool) (steps : ℕ) (multiplier mask : UInt32) :
    Core.multiplierSteps isSigned steps multiplier mask ≤ steps := by
  induction steps generalizing multiplier mask with
  | zero => exact le_rfl
  | succ steps ih =>
    unfold Core.multiplierSteps
    dsimp only
    split
    · exact Nat.zero_le _
    · have := ih (multiplier &&& mask) (mask <<< 8)
      omega

theorem multiplyIdle (multiplier : UInt32) (isSigned : Bool) :
    Takes 2 (Core.multiplyIdle multiplier isSigned : MachineM σ Unit) := by
  refine idle.seq (b := 1) (tick ?_)
  have hle : Core.multiplierCycles multiplier isSigned ≤ 4 := multiplierSteps_le isSigned 4 _ _
  have hcycles : (Core.multiplierCycles multiplier isSigned).toUInt64.toNat =
      Core.multiplierCycles multiplier isSigned := by
    rw [Nat.toUInt64_eq, UInt64.toNat_ofNat']
    exact Nat.mod_eq_of_lt (by omega)
  omega

end Takes

namespace Core

open MachineM

/-- Every access takes time, and what is served natively takes at most a number of parts. -/
structure Timed (core : Core σ) (calls : ℕ) : Prop where
  waitTime : ∀ w address access b, (core.waitTime w address access b).1 ≠ 0
  nativeCall : ∀ comment b cycles, (core.nativeCall comment b).1 = some cycles →
    cycles.toNat ≤ calls * 0xFFFF

namespace Timed

variable {core : Core σ} {calls : ℕ}

/-! ## Memory -/

theorem wait (h : core.Timed calls) (w : Width) (address : UInt32) (access : Access) :
    TakesTime 1 (core.wait w address access) := by
  refine ⟨fun m => ?_⟩
  let cycles := (core.waitTime w address access m.toBoard).1
  have hlt := cycles.toNat_lt
  have hpositive : 0 < cycles.toNat := by
    rw [Nat.pos_iff_ne_zero]
    intro hzero
    exact h.waitTime w address access m.toBoard (UInt16.toNat_inj.mp hzero)
  refine ⟨cycles.toNat, by omega, hpositive, ?_⟩
  show m.cycles + cycles.toUInt64 = _
  rw [← UInt16.toNat_toUInt64, UInt64.ofNat_toNat]

theorem peek (w : Width) (address : UInt32) : Takes 0 (core.peek w address) :=
  .after (.onBoard _) fun _ => .pure _

theorem load (h : core.Timed calls) (w : Width) (address : UInt32) (access : Access) :
    Takes 1 (core.load w address access) := by
  unfold Core.load
  exact (h.wait w address access).takes.seq (.after (peek w address) fun _ => .pure (n := 0) _)

theorem store (h : core.Timed calls) (w : Width) (address value : UInt32) (access : Access) :
    Takes 1 (core.store w address value access) :=
  (h.wait w address access).takes.seq (.onBoard (n := 0) _)

theorem loadRotated (h : core.Timed calls) (address : UInt32) (access : Access) :
    Takes 1 (core.loadRotated address access) :=
  (h.load .word address access).bind fun _ => .pure (n := 0) _

theorem loadSignedHalf (h : core.Timed calls) (address : UInt32) (access : Access) :
    Takes 1 (core.loadSignedHalf address access) := by
  unfold Core.loadSignedHalf
  exact (h.wait .half address access).takes.seq
    (.after (peek .half address) fun _ => .pure (n := 0) _)

theorem loadSignedByte (h : core.Timed calls) (address : UInt32) (access : Access) :
    Takes 1 (core.loadSignedByte address access) :=
  (h.load .byte address access).bind fun _ => .pure (n := 0) _

/-! ## Jumps and fetches -/

theorem refill (h : core.Timed calls) : TakesTime 2 core.refill := by
  unfold Core.refill
  refine .after (.view _) fun w => .after (.view _) fun first => ?_
  refine (h.wait w first _).bind (b := 1) fun _ => .after (.change _) fun _ => ?_
  exact .after (.view _) fun second => (h.wait w second _).takes.seq (.change (n := 0) _)

theorem jump (h : core.Timed calls) (address : UInt32) : TakesTime 2 (core.jump address) :=
  .after (.change _) fun _ => h.refill

theorem jumpBy (h : core.Timed calls) (offset : Int32) : Takes 2 (core.jumpBy offset) :=
  .after (.view _) fun _ => (h.jump _).takes

theorem exchange (h : core.Timed calls) (address : UInt32) : Takes 2 (core.exchange address) :=
  .after (.setFlag _ _) fun _ => (h.jump address).takes

theorem setReg (h : core.Timed calls) (r : Register) (value : UInt32) :
    Takes 2 (core.setReg r value) := .ite (h.jump value).takes (.putReg r value)

theorem setLoaded (h : core.Timed calls) (r : Register) (value : UInt32) :
    Takes 2 (core.setLoaded r value) :=
  .ite (.ite (h.exchange value) (h.jump value).takes) (.putReg r value)

theorem revalidate : Takes 0 core.revalidate := by
  unfold Core.revalidate
  refine .after (.view _) fun valid => .ite ?_ (.pure _)
  refine .after (.view _) fun pc => .after (.view _) fun w => ?_
  exact .after (peek w _) fun first => .after (peek w pc) fun second => .change _

theorem fetch (h : core.Timed calls) (w : Width) : TakesTime 1 (core.fetch w) := by
  unfold Core.fetch
  refine .after (.change _) fun _ => .after (.view _) fun pc => .after (.view _) fun access => ?_
  refine (h.wait w pc _).bind (b := 0) fun _ => .after (peek w pc) fun incoming => ?_
  exact .after (.view _) fun inst => .after (.change _) fun _ => .pure _

theorem skipUnknown (inst : UInt32) : Takes 0 (core.skipUnknown inst) :=
  .after (.view _) fun _ => .note _

/-! ## Block transfers -/

theorem transferNothing (h : core.Timed calls) (n : Register) (t : BlockTransfer) :
    Takes 5 (core.transferNothing n t) := by
  unfold Core.transferNothing
  refine .after (.reg n) fun base => (h.setReg n _).seq (b := 3) (.ite (.ite ?_ ?_) (.pure _))
  · exact (h.load .word _ _).bind fun _ => (h.jump _).takes
  · exact .after (.view _) fun _ => (h.store .word _ _ _).mono (by decide)

theorem storeBlock (h : core.Timed calls) (value : Register → CpuState → UInt32)
    (list : List Register) (address : UInt32) (access : Access) :
    Takes list.length (core.storeBlock value list address access) := by
  induction list generalizing address access with
  | nil => exact .pure _
  | cons r list ih =>
    rw [List.length_cons, Nat.add_comm]
    exact .after (.view _) fun _ => (h.store .word address _ access).seq (ih _ _)

theorem loadBlock (h : core.Timed calls) (userBank : Bool) (list : List Register)
    (address : UInt32) (access : Access) :
    Takes list.length (core.loadBlock userBank list address access) := by
  induction list generalizing address access with
  | nil => exact .pure _
  | cons r list ih =>
    rw [List.length_cons, Nat.add_comm]
    unfold Core.loadBlock
    refine (h.load .word address access).bind fun value => .ite ?_ ?_
    · exact (ih _ _).bind (b := 0) fun _ => .pure _
    · exact .after (.change _) fun _ => ih _ _

theorem finishTransfer (h : core.Timed calls) (n : Register) (newBase : UInt32)
    (moves load statusBit : Bool) (target : Option UInt32) :
    Takes 3 (core.finishTransfer n newBase moves load statusBit target) := by
  have hend : Takes 2 (core.endTransfer statusBit target) := by
    cases target with
    | none => exact .pure _
    | some address =>
      exact .ite (.after (.change _) fun _ => (h.jump address).takes) (h.setLoaded _ address)
  have haccess : Takes 3
      (if load then MachineM.idle >>= fun _ => core.endTransfer statusBit target
      else MachineM.setAccess Access.nonSequential >>= fun _ =>
        core.endTransfer statusBit target) :=
    .ite (Takes.idle.seq hend) (.after (.setAccess _) fun _ => hend.mono (by decide))
  exact .ite (.after (.putReg n newBase) fun _ => haccess) haccess

theorem blockTransfer (h : core.Timed calls) (n : Register) (set : UInt16) (t : BlockTransfer) :
    Takes 19 (core.blockTransfer n set t) := by
  -- Sixteen accesses at most, and three parts behind them.
  have hlength := Register.length_ofSet_le set
  rw [Core.blockTransfer_eq]
  refine .ite (((h.transferNothing n t).seq (.afterTransfer _)).mono (by decide)) ?_
  refine .after (.reg n) fun base => .ite ?_ ?_
  · have hload := (h.loadBlock (t.userBank (Register.ofSet set)) (Register.ofSet set)
      (t.lowest base (Register.ofSet set).length) Access.nonSequential).bind fun target =>
        h.finishTransfer n (t.newBase base (Register.ofSet set).length)
          (t.movesBase core.processor.isV5 n (Register.ofSet set)) t.load t.statusBit target
    exact hload.mono (by omega)
  · exact ((h.storeBlock _ _ _ _).seq (h.finishTransfer _ _ _ _ _ none)).mono (by omega)

/-! ## Exceptions -/

theorem raise (h : core.Timed calls) (e : Exception) : TakesTime 2 (core.raise e) := by
  unfold Core.raise
  refine .after (.onBoard _) fun _ => .after (.change _) fun _ => .after (.view _) fun status => ?_
  refine .after (.change _) fun _ => .after (.change _) fun _ => .after (.change _) fun _ => ?_
  exact .after (.ask _) fun base => h.jump _

/-- A call that is served natively takes what the system says, and two jumps. -/
theorem softwareInterrupt (h : core.Timed calls) (comment : UInt8) :
    Takes (calls + 4) (core.softwareInterrupt comment) := by
  unfold Core.softwareInterrupt
  refine ((h.raise .softwareInterrupt).takes.seq (b := calls + 2) ?_).mono (by omega)
  refine .onBoard_bind fun b => ?_
  cases hserved : (core.nativeCall comment b).1 with
  | none => exact .pure _
  | some cycles =>
    refine (Takes.tick (h.nativeCall comment b cycles hserved)).seq ?_
    exact .after (.reg _) fun target => .after (.change _) fun _ => (h.jump target).takes

/-! ## Long instructions -/

theorem aluOperands (n : Register) (carry : Bool) (operand : Arm.Operand) :
    Takes 1 (Core.aluOperands n carry operand : MachineM σ (UInt32 × Shifted)) := by
  cases operand with
  | immediate value rotate => exact .after (.reg n) fun _ => .pure _
  | shiftedImmediate m shift amount =>
    exact .after (.reg n) fun _ => .after (.reg m) fun _ => .pure _
  | shiftedRegister m shift amount =>
    refine Takes.idle.bind (b := 0) fun _ => .after (.view _) fun a => .after (.view _) fun b => ?_
    exact .after (.reg amount) fun _ => .pure _

theorem executeAlu (h : core.Timed calls) (op : Arm.AluOp) (setFlags : Bool) (n r : Register)
    (operand : Arm.Operand) : Takes 3 (core.executeAlu op setFlags n r operand) := by
  unfold Core.executeAlu
  refine .after (.view _) fun carry => (aluOperands n carry operand).bind (b := 2) fun p => ?_
  obtain ⟨a, b⟩ := p
  have hwrite : ∀ value, Takes 2 (if op.writes then core.setReg r value else Pure.pure ()) :=
    fun value => .ite (h.setReg r value) (.pure _)
  refine .after (.view _) fun p => .ite ?_ (hwrite p.1)
  exact .after (.change _) fun _ => .ite (.after (.change _) fun _ => hwrite p.1) (hwrite p.1)

theorem executeMultiply (h : core.Timed calls) (op : Arm.MulOp) (setFlags : Bool)
    (r n s m : Register) : Takes 7 (core.executeMultiply op setFlags r n s m) := by
  unfold Core.executeMultiply
  refine .after (.reg m) fun a => .after (.reg s) fun b => .after (.reg n) fun low => ?_
  have hend : Takes 2 (if setFlags && !core.processor.isV5 then
      MachineM.setFlag .carry false >>= fun _ => Core.multiplyIdle b (!op.isUnsigned)
      else Core.multiplyIdle b (!op.isUnsigned) : MachineM σ Unit) :=
    .optional (a := 0) (b := 2) (.setFlag _ _) (.multiplyIdle _ _)
  refine .ite (Takes.mono (a := 5) ?_ (by decide)) ?_
  · refine .optional (a := 1) (b := 4) (.tick (by decide)) ?_
    exact .optional (a := 0) (b := 4) (.change _) ((h.setReg r _).seq hend)
  · refine .after (.reg r) fun high => Takes.seq (a := 1) (b := 6) (.tick ?_) ?_
    · split <;> decide
    · refine .ite (.after (.setFlag _ _) fun _ => .after (.setFlag _ _) fun _ => ?_) ?_
      · exact (h.setReg n _).seq (b := 4) ((h.setReg r _).seq hend)
      · exact (h.setReg n _).seq (b := 4) ((h.setReg r _).seq hend)

theorem markSaturated (out : Bool) : Takes 0 (Core.markSaturated out : MachineM σ Unit) :=
  .ite (.setFlag _ true) (.pure _)

theorem executeHalfMultiply (h : core.Timed calls) (op : Arm.HalfMulOp) (r n s m : Register)
    (xTop yTop : Bool) : Takes 5 (core.executeHalfMultiply op r n s m xTop yTop) := by
  unfold Core.executeHalfMultiply
  refine .after (.reg m) fun a => .after (.reg n) fun b => .after (.reg s) fun y => ?_
  have hwrite : ∀ value, Takes 5 (core.setReg r value) :=
    fun value => (h.setReg r value).mono (by decide)
  cases op with
  | smla => exact .after (markSaturated _) fun _ => hwrite _
  | smlaw => exact .after (markSaturated _) fun _ => hwrite _
  | smulw => exact hwrite _
  | smlal =>
    refine .after (.reg r) fun high => Takes.seq (a := 1) (b := 4) (.tick (by decide)) ?_
    exact (h.setReg n _).seq (h.setReg r _)
  | smul => exact hwrite _

theorem executeSaturating (h : core.Timed calls) (op : Arm.SaturatingOp) (r n m : Register) :
    Takes 2 (core.executeSaturating op r n m) := by
  unfold Core.executeSaturating
  refine .after (.reg m) fun a => .after (.reg n) fun b => ?_
  exact .after (markSaturated _) fun _ => h.setReg r _

theorem executeWriteStatus (source : Arm.StatusSource) (flags control saved : Bool) :
    Takes 0 (Core.executeWriteStatus source flags control saved : MachineM σ Unit) := by
  cases source with
  | immediate value => exact .after (.pure value) fun _ => .change _
  | register m => exact .after (.reg m) fun _ => .change _

theorem transferData (h : core.Timed calls) (kind : Arm.TransferKind) (r : Register)
    (address : UInt32) : Takes 6 (core.transferData kind r address) := by
  have hload : ∀ {value : MachineM σ UInt32}, Takes 1 value →
      Takes 6 (value >>= fun x => core.setReg r x) :=
    fun hvalue => (hvalue.bind fun _ => h.setReg r _).mono (by decide)
  have hstore : ∀ w access, Takes 6 (MachineM.view (·.lateReg r) >>= fun value =>
      core.store w address value access) :=
    fun w access => .after (.view _) fun _ => (h.store w address _ access).mono (by decide)
  cases kind with
  | loadByte => exact hload (h.load .byte address _)
  | loadSignedByte => exact hload (h.loadSignedByte address _)
  | loadHalf => exact hload (h.load .half address _)
  | loadSignedHalf => exact hload (h.loadSignedHalf address _)
  | loadWord =>
    exact ((h.loadRotated address _).bind fun _ => h.setLoaded r _).mono (by decide)
  | loadDouble =>
    refine (h.load .word address _).bind (b := 5) fun low => ?_
    refine (h.load .word (address + 4) _).bind (b := 4) fun high => ?_
    exact (h.setReg r low).seq (h.setReg (r + 1) high)
  | storeByte => exact hstore .byte _
  | storeHalf => exact hstore .half _
  | storeWord => exact hstore .word _
  | storeDouble =>
    refine .after (.view _) fun low => .after (.view _) fun high => ?_
    refine Takes.mono (a := 2) ?_ (by decide)
    exact (h.store .word address low _).seq (h.store .word (address + 4) high _)

theorem executeTransfer (h : core.Timed calls) (n r : Register) (offset : Arm.Offset)
    (mode : Arm.TransferMode) : Takes 9 (core.executeTransfer n r offset mode) := by
  unfold Core.executeTransfer
  refine .after (.view _) fun distance => .after (.reg n) fun base => ?_
  refine (h.transferData mode.kind r _).seq (b := 3) ?_
  exact .optional (a := 2) (b := 1) (h.setReg n _) (.afterTransfer _)

theorem executeSwap (h : core.Timed calls) (n r m : Register) (byte : Bool) :
    Takes 5 (core.executeSwap n r m byte) := by
  unfold Core.executeSwap
  refine .after (.reg n) fun address => .after (.reg m) fun source => ?_
  have hstore : ∀ value, Takes 4
      (core.store (if byte then .byte else .word) address source Access.nonSequential >>= fun _ =>
        core.setReg r value >>= fun _ => MachineM.idle) :=
    fun value => (h.store _ address source _).seq (b := 3) ((h.setReg r value).seq .idle)
  exact .ite ((h.load .byte address _).bind hstore) ((h.loadRotated address _).bind hstore)

theorem executeReadCoprocessor (h : core.Timed calls) (inst : UInt32) (p : Arm.Coprocessor) :
    Takes 2 (core.executeReadCoprocessor inst p) := by
  unfold Core.executeReadCoprocessor
  refine .ite ((skipUnknown inst).mono (by decide)) ?_
  exact .after (.onBoard _) fun value => .ite (.change _) (h.setReg _ _)

theorem executeWriteCoprocessor (inst : UInt32) (p : Arm.Coprocessor) :
    Takes 0 (core.executeWriteCoprocessor inst p) :=
  .ite (skipUnknown inst) (.after (.view _) fun _ => .onBoard _)

theorem runArm (h : core.Timed calls) (word : UInt32) (inst : Arm.Instruction) :
    Takes (calls + 19) (core.runArm word inst) := by
  cases inst with
  | unknown => exact (skipUnknown word).mono (by omega)
  | softwareInterrupt comment => exact (h.softwareInterrupt comment).mono (by omega)
  | branch offset link =>
    unfold Core.runArm
    refine Takes.mono (a := 2) ?_ (by omega)
    exact .optional (a := 0) (b := 2) (.change _) (h.jumpBy offset)
  | callShort offset =>
    exact .after (.view _) fun target => .after (.change _) fun _ =>
      (h.jump target).takes.mono (by omega)
  | exchange m => exact .after (.reg m) fun target => (h.exchange target).mono (by omega)
  | callExchange m =>
    exact .after (.reg m) fun target => .after (.change _) fun _ =>
      (h.exchange target).mono (by omega)
  | alu op setFlags n r operand => exact (h.executeAlu op setFlags n r operand).mono (by omega)
  | multiply op setFlags r n s m => exact (h.executeMultiply op setFlags r n s m).mono (by omega)
  | halfMultiply op r n s m xTop yTop =>
    exact (h.executeHalfMultiply op r n s m xTop yTop).mono (by omega)
  | leadingZeros r m => exact .after (.reg m) fun _ => (h.setReg r _).mono (by omega)
  | saturating op r n m => exact (h.executeSaturating op r n m).mono (by omega)
  | readStatus r saved => exact .after (.view _) fun _ => (h.setReg r _).mono (by omega)
  | writeStatus source flags control saved =>
    exact (executeWriteStatus source flags control saved).mono (by omega)
  | transfer n r offset mode => exact (h.executeTransfer n r offset mode).mono (by omega)
  | blockTransfer n list statusBit mode => exact (h.blockTransfer n list _).mono (by omega)
  | swap n r m byte => exact (h.executeSwap n r m byte).mono (by omega)
  | readCoprocessor p => exact (h.executeReadCoprocessor word p).mono (by omega)
  | writeCoprocessor p => exact (executeWriteCoprocessor word p).mono (by omega)
  | preload => exact .pure _

theorem executeArm (h : core.Timed calls) (word : UInt32) :
    Takes (calls + 19) (core.executeArm word) :=
  .after (.view _) fun _ => .ite (h.runArm word _) (.pure _)

/-! ## Short instructions -/

theorem withSum (sum : Sum32) : Takes 0 (Core.withSum sum : MachineM σ UInt32) :=
  .after (.change _) fun _ => .pure _

theorem withLogical (value : UInt32) : Takes 0 (Core.withLogical value : MachineM σ UInt32) :=
  .after (.change _) fun _ => .pure _

theorem withShifted (shifted : Shifted) :
    Takes 0 (Core.withShifted shifted : MachineM σ UInt32) := .after (.change _) fun _ => .pure _

theorem executeShift (op : Thumb.ShiftOp) (r s : LowRegister) (amount : UInt32) :
    Takes 0 (Core.executeShift op r s amount : MachineM σ Unit) := by
  unfold Core.executeShift
  refine .after (.low s) fun a => .after (.view _) fun carry => ?_
  cases op with
  | lsl | lsr | asr => exact .after (withShifted _) fun _ => .putLow r _
  | add | sub => exact .after (withSum _) fun _ => .putLow r _

theorem executeImmediate (op : Thumb.ImmediateOp) (r : LowRegister) (value : UInt32) :
    Takes 0 (Core.executeImmediate op r value : MachineM σ Unit) := by
  unfold Core.executeImmediate
  refine .after (.low r) fun a => ?_
  cases op with
  | mov => exact .after (withLogical value) fun _ => .putLow r _
  | cmp => exact .after (withSum _) fun _ => .pure _
  | add | sub => exact .after (withSum _) fun _ => .putLow r _

theorem executeThumbAlu (op : Thumb.AluOp) (r s : LowRegister) :
    Takes 2 (core.executeThumbAlu op r s) := by
  unfold Core.executeThumbAlu
  refine .after (.low r) fun a => .after (.low s) fun b => .after (.view _) fun carry => ?_
  have hwrite : ∀ value, Takes 0 (if op.writes then MachineM.putLow r value else Pure.pure () :
      MachineM σ Unit) := fun value => .ite (.putLow r value) (.pure _)
  have hfree : ∀ {value : MachineM σ UInt32}, Takes 0 value → Takes 2 (value >>= fun x =>
      if op.writes then MachineM.putLow r x else Pure.pure ()) :=
    fun hvalue => (Takes.after hvalue hwrite).mono (by decide)
  cases op with
  | and | tst | eor | orr | bic | mvn => exact hfree (withLogical _)
  | lsl | lsr | asr | ror =>
    exact (Takes.idle.seq (b := 1) ((Takes.after (withShifted _) hwrite).mono (by decide)))
  | adc | sbc | neg | cmp | cmn => exact hfree (withSum _)
  | mul =>
    refine (Takes.multiplyIdle a true).seq (b := 0) (.after (withLogical _) fun value => ?_)
    exact .optional (a := 0) (b := 0) (.setFlag _ false) (.after (.pure value) hwrite)

theorem executeThumbTransfer (h : core.Timed calls) (op : Thumb.TransferOp) (r : LowRegister)
    (address : UInt32) : Takes 2 (core.executeThumbTransfer op r address) := by
  have hload : ∀ {value : MachineM σ UInt32}, Takes 1 value →
      Takes 2 (value >>= fun x => MachineM.putLow r x >>= fun _ => MachineM.idle) :=
    fun hvalue => hvalue.bind fun _ => .after (.putLow r _) fun _ => .idle
  have hstore : ∀ w, Takes 2 (MachineM.low r >>= fun value =>
      core.store w address value Access.nonSequential >>= fun _ =>
        MachineM.setAccess Access.nonSequential) :=
    fun w => .after (.low r) fun _ => (h.store w address _ _).seq (b := 1) (.setAccess _)
  cases op with
  | storeWord => exact hstore .word
  | storeHalf => exact hstore .half
  | storeByte => exact hstore .byte
  | loadSignedByte => exact hload (h.loadSignedByte address _)
  | loadWord => exact hload (h.loadRotated address _)
  | loadHalf => exact hload (h.load .half address _)
  | loadByte => exact hload (h.load .byte address _)
  | loadSignedHalf => exact hload (h.loadSignedHalf address _)

theorem executeCall (h : core.Timed calls) (offset : UInt32) (short : Bool) :
    Takes 2 (core.executeCall offset short) := by
  unfold Core.executeCall
  refine .after (.reg Register.lr) fun upper => .after (.change _) fun _ => ?_
  exact .ite (h.jump _).takes (.after (.setFlag _ _) fun _ => (h.jump _).takes)

theorem runThumb (h : core.Timed calls) (half : UInt16) (inst : Thumb.Instruction) :
    Takes (calls + 19) (core.runThumb half inst) := by
  cases inst with
  | unknown => exact (skipUnknown _).mono (by omega)
  | shift op r s amount => exact (executeShift op r s amount).mono (by omega)
  | addSubtract subtract r s n =>
    refine .after (.low s) fun a => .after (.low n) fun b => ?_
    exact .after (withSum _) fun _ => .putLow r _
  | immediate op r value => exact (executeImmediate op r value).mono (by omega)
  | alu op r s => exact (executeThumbAlu op r s).mono (by omega)
  | highAdd s r =>
    exact .after (.reg r) fun a => .after (.reg s) fun b => (h.setReg r _).mono (by omega)
  | highCompare s r =>
    refine .after (.reg r) fun a => .after (.reg s) fun b => ?_
    exact .after (withSum _) fun _ => .pure _
  | highMove s r => exact .after (.reg s) fun _ => (h.setReg r _).mono (by omega)
  | exchange s link =>
    refine .after (.reg s) fun target => Takes.mono (a := 2) ?_ (by omega)
    exact .optional (a := 0) (b := 2) (.change _) (h.exchange target)
  | loadLiteral r offset =>
    refine .after (.view _) fun address => Takes.mono (a := 2) ?_ (by omega)
    exact (h.load .word address _).bind fun value => .after (.putLow r value) fun _ => .idle
  | transferRegister op r b o =>
    exact .after (.low b) fun base => .after (.low o) fun offset =>
      (h.executeThumbTransfer op r _).mono (by omega)
  | transferImmediate op r b offset =>
    exact .after (.low b) fun base => (h.executeThumbTransfer op r _).mono (by omega)
  | transferStack load r offset =>
    exact .after (.reg _) fun base => (h.executeThumbTransfer _ r _).mono (by omega)
  | relativeAddress sp r offset => exact .after (.view _) fun base => .putLow r _
  | moveStack offset => exact .after (.reg _) fun base => .putReg _ _
  | push list lr => exact (h.blockTransfer _ _ _).mono (by omega)
  | pop list pc => exact (h.blockTransfer _ _ _).mono (by omega)
  | storeBlock b list => exact (h.blockTransfer _ _ _).mono (by omega)
  | loadBlock b list => exact (h.blockTransfer _ _ _).mono (by omega)
  | branchIf condition offset =>
    exact .after (.view _) fun _ => .ite ((h.jumpBy offset).mono (by omega)) (.pure _)
  | softwareInterrupt comment => exact (h.softwareInterrupt comment).mono (by omega)
  | branch offset => exact (h.jumpBy offset).mono (by omega)
  | prepareCall offset => exact .free fun _ => rfl
  | call offset short => exact (h.executeCall offset short).mono (by omega)

/-! ## Steps -/

theorem execute (h : core.Timed calls) (thumb : Bool) (inst : UInt32) :
    Takes (calls + 19) (core.execute thumb inst) := by
  unfold Core.execute
  refine .after (.view _) fun s => .after (.note _) fun _ => ?_
  exact .ite (h.runThumb _ _) (h.executeArm _)

theorem executeNext (h : core.Timed calls) : TakesTime (calls + 20) core.executeNext := by
  rw [Core.executeNext_eq]
  have hfetch : TakesTime 1 core.fetchNext :=
    .after revalidate fun _ => .after (.view _) fun thumb =>
      (h.fetch _).bind (b := 0) fun inst => .pure _
  exact (hfetch.bind fun p => h.execute p.1 p.2).mono (by omega)

theorem takeInterrupt_of_taken {m : Machine σ} (htaken : core.takesInterrupt m.toBoard = true) :
    core.takeInterrupt m =
      (true, (core.raise .interruptRequest
        { m with
          cpu := m.cpu.bumpPc 4, log := m.log.add (.takingIrq core.processor) }).2) := by
  have htake : core.takeInterrupt m =
      (if core.takesInterrupt m.toBoard then do
        note (.takingIrq core.processor)
        change (·.bumpPc 4)
        core.raise .interruptRequest
        return true
      else return false : MachineM σ Bool) m := rfl
  rw [htake, htaken]
  rfl

/-- A processor that is awake enters an interrupt or executes an instruction; either takes time. -/
theorem interruptOrNext (h : core.Timed calls) :
    TakesTime (calls + 20)
      (core.takeInterrupt >>= fun taken => if !taken then core.executeNext else pure ()) := by
  refine ⟨fun m => ?_⟩
  by_cases htaken : core.takesInterrupt m.toBoard = true
  · have hraise := ((h.raise .interruptRequest).mono (b := calls + 20) (by omega)).cycles
      { m with cpu := m.cpu.bumpPc 4, log := m.log.add (.takingIrq core.processor) }
    show ∃ k ≤ (calls + 20) * 0xFFFF, 0 < k ∧
      ((if !(core.takeInterrupt m).1 then core.executeNext else pure () : MachineM σ Unit)
        (core.takeInterrupt m).2).2.cycles = _
    rw [takeInterrupt_of_taken htaken]
    exact hraise
  · rw [Bool.not_eq_true] at htaken
    show ∃ k ≤ (calls + 20) * 0xFFFF, 0 < k ∧
      ((if !(core.takeInterrupt m).1 then core.executeNext else pure () : MachineM σ Unit)
        (core.takeInterrupt m).2).2.cycles = _
    rw [core.takeInterrupt_of_calm htaken]
    exact h.executeNext.cycles m

end Timed

/-- Whether the processor does anything in its next step. -/
def canRun (core : Core σ) (b : Board σ) : Bool :=
  !b.cpu.isHalted || (core.interrupts b.system).isPending

variable {core : Core σ}

/-- A processor that cannot run lets its step pass. -/
theorem step_of_asleep {b : Board σ} (h : core.canRun b = false) : core.step b = (0, b) := by
  obtain ⟨hhalted, hpending⟩ : b.cpu.isHalted = true ∧
      (core.interrupts b.system).isPending = false := by
    simpa [canRun] using h
  have hbody : core.stepBody { toBoard := b } = ((), { toBoard := b }) := by
    unfold stepBody
    show (if b.cpu.isHalted then _ else _ : MachineM σ Unit) { toBoard := b } = _
    rw [hhalted, if_pos rfl]
    show (if !(core.interrupts b.system).isPending then _ else _ : MachineM σ Unit)
      { toBoard := b } = _
    rw [hpending]
    rfl
  unfold step
  rw [hbody]

/-- A processor that can run wakes up, if it was halted, and goes on. -/
theorem stepBody_of_awake {b : Board σ} (hrun : core.canRun b = true) :
    core.stepBody { toBoard := b } =
      (core.takeInterrupt >>= fun taken => if !taken then core.executeNext else pure ())
        { toBoard := core.woken b } := by
  unfold stepBody woken
  show (if b.cpu.isHalted then _ else _ : MachineM σ Unit) { toBoard := b } = _
  by_cases hhalted : b.cpu.isHalted = true
  · have hpending : (core.interrupts b.system).isPending = true := by
      simpa [canRun, hhalted] using hrun
    rw [if_pos hhalted, if_pos hhalted]
    show (if !(core.interrupts b.system).isPending then _ else _ : MachineM σ Unit)
      { toBoard := b } = _
    rw [hpending]
    rfl
  · rw [if_neg hhalted, if_neg hhalted]

/-- A processor that can run takes time for its step, as much as its parts take together. -/
theorem Timed.step {calls : ℕ} (h : core.Timed calls) {b : Board σ} (hrun : core.canRun b = true) :
    ∃ k ≤ (calls + 20) * 0xFFFF, 0 < k ∧ (core.step b).1 = UInt64.ofNat k := by
  obtain ⟨k, hk, hpositive, hcycles⟩ := h.interruptOrNext.cycles { toBoard := core.woken b }
  refine ⟨k, hk, hpositive, ?_⟩
  show (core.stepBody { toBoard := b }).2.cycles = _
  rw [stepBody_of_awake hrun, hcycles]
  exact UInt64.zero_add _

end Core
end Handheld
