import Handheld.Checked.Core
import Handheld.Proofs.Checked.State
import Handheld.Proofs.Cpu.InterruptReturn

/-!
# A processor core with checked ranges

What a core does that evaluates nothing out of range is an action of the core without checks, run
as it is. The parts of an instruction are such actions, one lemma for each: loads, jumps,
exceptions, and the two directions of a block transfer.
-/

namespace Handheld

open Word MachineM

/-! ## Actions without checks -/

namespace CheckedM

variable {σ α β : Type}

-- These are used to rewrite large terms, so they are proved point by point: a proof by `rfl` alone
-- would leave it to the kernel to compare the terms.

theorem run_pure (a : α) : (pure a : CheckedM σ α) = run (pure a) := funext fun _ => rfl

theorem run_pure_bind (a : α) (f : α → CheckedM σ β) : (run (pure a) >>= f) = f a :=
  funext fun _ => rfl

theorem run_bind (act : MachineM σ α) (f : α → MachineM σ β) :
    (run act >>= fun a => run (f a)) = run (act >>= f) := funext fun _ => rfl

theorem run_bind_of {act : MachineM σ α} {f : α → CheckedM σ β} {g : α → MachineM σ β}
    (h : ∀ a, f a = run (g a)) : (run act >>= f) = run (act >>= g) := by
  rw [funext h, run_bind]

theorem run_ite (c : Prop) [Decidable c] (act act' : MachineM σ α) :
    (if c then run act else run act') = run (if c then act else act') :=
  (apply_ite run c act act').symm

theorem lift_ok (a : α) : (liftM (Except.ok a : Checked α) : CheckedM σ α) = run (pure a) :=
  funext fun _ => rfl

theorem evaluate_ok (f : CpuState → α) :
    (evaluate fun s => .ok (f s) : CheckedM σ α) = run (view f) := funext fun _ => rfl

theorem alter_ok (f : CpuState → CpuState) :
    (alter fun s => .ok (f s) : CheckedM σ Unit) = run (change f) := funext fun _ => rfl

theorem alter_setFlag (f : Flag) (state : Bool) :
    (alter (·.setFlagChecked f state) : CheckedM σ Unit) = run (setFlag f state) := by
  simp only [CpuState.setFlagChecked_eq, alter_ok]
  rfl

end CheckedM

namespace Core

open CheckedM

variable {σ : Type} (core : Core σ)

/-! ## Memory -/

section
variable (w : Width) (address : UInt32) (access : Access)

@[simp] theorem loadChecked_eq :
    core.loadChecked w address access = run (core.load w address access) := by
  simp (disch := decide) only [loadChecked, Checked.isBit_word, lift_ok, run_pure, run_bind]
  rfl

@[simp] theorem loadRotatedChecked_eq :
    core.loadRotatedChecked address access = run (core.loadRotated address access) := by
  simp only [loadRotatedChecked, loadChecked_eq, run_pure, run_bind]
  rfl

@[simp] theorem loadSignedHalfChecked_eq :
    core.loadSignedHalfChecked address access = run (core.loadSignedHalf address access) := by
  simp (disch := decide) only [loadSignedHalfChecked, Checked.isBit_word, lift_ok, run_pure,
    run_bind]
  rfl

@[simp] theorem loadSignedByteChecked_eq :
    core.loadSignedByteChecked address access = run (core.loadSignedByte address access) := by
  simp only [loadSignedByteChecked, loadChecked_eq, run_pure, run_bind]
  rfl

end

/-! ## Jumps -/

@[simp] theorem instructionWidthChecked_eq (s : CpuState) :
    instructionWidthChecked s = .ok (instructionWidth s) := by
  rw [instructionWidthChecked, CpuState.isFlagChecked_eq]
  rfl

theorem evaluate_instructionWidth :
    (evaluate instructionWidthChecked : CheckedM σ Width) = run (view instructionWidth) := by
  rw [funext instructionWidthChecked_eq, evaluate_ok]

@[simp] theorem refillChecked_eq : core.refillChecked = run core.refill := by
  rw [refillChecked, evaluate_instructionWidth]
  rfl

@[simp] theorem jumpChecked_eq (address : UInt32) :
    core.jumpChecked address = run (core.jump address) := by
  funext m
  simp only [jumpChecked, CpuState.instructionSizeChecked_eq, evaluate_ok, refillChecked_eq]
  show (do
    let target ← liftM (Address.alignDownChecked address m.cpu.instructionSize)
    run (change (·.setReg Register.pc target))
    run core.refill : CheckedM σ Unit) m = _
  rw [CpuState.alignDownChecked_instructionSize]
  rfl

@[simp] theorem jumpByChecked_eq (offset : Int32) :
    core.jumpByChecked offset = run (core.jumpBy offset) := by
  simp only [jumpByChecked, jumpChecked_eq, run_bind]
  rfl

@[simp] theorem exchangeChecked_eq (address : UInt32) :
    core.exchangeChecked address = run (core.exchange address) := by
  simp (disch := decide) only [exchangeChecked, Checked.isBit_word, lift_ok,
    CpuState.setFlagChecked_eq, alter_ok, jumpChecked_eq, run_bind]
  rfl

@[simp] theorem setRegChecked_eq (r : Register) (value : UInt32) :
    core.setRegChecked r value = run (core.setReg r value) := by
  rw [setRegChecked, jumpChecked_eq, run_ite]
  rfl

@[simp] theorem setLoadedChecked_eq (r : Register) (value : UInt32) :
    core.setLoadedChecked r value = run (core.setLoaded r value) := by
  rw [setLoadedChecked, exchangeChecked_eq, jumpChecked_eq, run_ite, run_ite]
  rfl

/-! ## Fetching -/

@[simp] theorem revalidateChecked_eq : core.revalidateChecked = run core.revalidate := by
  simp only [revalidateChecked, evaluate_instructionWidth, run_pure, run_bind, run_ite]
  rfl

@[simp] theorem skipUnknownChecked_eq (inst : UInt32) :
    core.skipUnknownChecked inst = run (core.skipUnknown inst) := by
  simp only [skipUnknownChecked, CpuState.executingChecked_eq, evaluate_ok, run_bind]
  rfl

/-! ## Exceptions -/

/-- The status that is saved is the one before the program counter was moved, which leaves it as
it is. -/
theorem raised_eq_switched (e : Exception) (s : CpuState) :
    s.raised e =
      ((s.realigned.switched e).setReg Register.lr
        ((s.realigned.switched e).pc - (s.realigned.switched e).instructionSize)).setSavedStatus
        s.realigned.cpsr := by
  rw [CpuState.cpsr_realigned]
  rfl

@[simp] theorem enterChecked_eq (e : Exception) (s : CpuState) :
    enterChecked e s = .ok (s.raised e) := by
  simp only [enterChecked, CpuState.isFlagChecked_eq, CpuState.setModeChecked_eq,
    CpuState.setFlagChecked_eq, CpuState.instructionSizeChecked_eq, Exception.modeChecked_eq,
    Checked.ok_bind, Checked.pure_eq]
  rw [raised_eq_switched, CpuState.switched]
  cases e.masksFast <;> rfl

/-- Entering an exception changes the processor's state at once and jumps. -/
theorem raise_eq (e : Exception) :
    core.raise e = (do
      onBoard (core.onException e)
      change (CpuState.raised e)
      let base ← ask core.vectorBase
      core.jump (base + e.vector)) := by
  rw [raise]
  -- The jump is left out, so that only the changes before it are evaluated.
  generalize core.jump = jump
  refine bind_congr fun _ => funext fun m => ?_
  show _ = jump (core.vectorBase m.system + e.vector) { m with cpu := m.cpu.raised e }
  rw [raised_eq_switched]
  rfl

@[simp] theorem raiseChecked_eq (e : Exception) : core.raiseChecked e = run (core.raise e) := by
  simp only [raiseChecked, raise_eq, funext (enterChecked_eq e), alter_ok,
    Exception.vectorChecked_eq, lift_ok, jumpChecked_eq, run_bind, pure_bind]

@[simp] theorem takeInterruptChecked_eq :
    core.takeInterruptChecked = run core.takeInterrupt := by
  simp only [takeInterruptChecked, takeInterrupt, CpuState.isFlagChecked_eq, evaluate_ok,
    raiseChecked_eq, run_pure, run_bind, run_ite, bind_assoc]

@[simp] theorem softwareInterruptChecked_eq (comment : UInt8) :
    core.softwareInterruptChecked comment = run (core.softwareInterrupt comment) := by
  simp only [softwareInterruptChecked, softwareInterrupt, raiseChecked_eq,
    CpuState.setCpsrChecked_eq, alter_ok, jumpChecked_eq, run_pure, run_bind]
  refine run_bind_of fun _ => run_bind_of fun cycles => ?_
  cases cycles <;> rfl

/-! ## Lists of registers -/

/-- A list of registers is selected bit by bit. -/
theorem selectChecked_eq (set : UInt16) (registers : List Register) :
    selectChecked set registers = .ok (registers.filter (isBit set ·.val)) := by
  induction registers with
  | nil => rfl
  | cons r rest ih =>
    rw [selectChecked, ih, Checked.ok_bind, Checked.isBit_short set r.isLt, Checked.ok_bind,
      List.filter_cons]
    rfl

@[simp] theorem selectChecked_finRange (set : UInt16) :
    selectChecked set (List.finRange 16) = .ok (Register.ofSet set) := selectChecked_eq set _

/-- The space that a list of registers takes up does not run out of its word. -/
@[simp] theorem mul_length_ofSet (set : UInt16) :
    Checked.mul (UInt32.ofNat (Register.ofSet set).length) 4 =
      .ok (4 * UInt32.ofNat (Register.ofSet set).length) := by
  have hlength := Register.length_ofSet_le set
  have hcount : (UInt32.ofNat (Register.ofSet set).length).toNat =
      (Register.ofSet set).length := UInt32.toNat_ofNat_of_lt' (hlength.trans_lt (by decide))
  have hfits : (UInt32.ofNat (Register.ofSet set).length).toNat * (4 : UInt32).toNat < 2 ^ 32 := by
    rw [hcount]
    show (Register.ofSet set).length * 4 < 2 ^ 32
    omega
  rw [Checked.mul_eq hfits, UInt32.mul_comm]

theorem mem_ofSet_iff {set : UInt16} {r : Register} :
    r ∈ Register.ofSet set ↔ set.toNat.testBit r.val = true := by
  rw [← isBit16_eq_testBit set r.isLt]
  exact List.mem_filter.trans (and_iff_right (List.mem_finRange r))

theorem contains_ofSet (set : UInt16) (r : Register) :
    (Register.ofSet set).contains r = isBit set r.val := by
  rw [Bool.eq_iff_iff, List.contains_iff_mem, mem_ofSet_iff, isBit16_eq_testBit set r.isLt]

/-- A list without registers has no bit. -/
theorem isEmpty_ofSet_iff (set : UInt16) : (Register.ofSet set).isEmpty = true ↔ set = 0 := by
  rw [List.isEmpty_iff]
  constructor
  · intro hempty
    refine ext_testBit16 fun i hi => ?_
    have hbit : (⟨i, hi⟩ : Register) ∉ Register.ofSet set := by simp [hempty]
    rw [mem_ofSet_iff, Bool.not_eq_true] at hbit
    rw [hbit]
    exact (Nat.zero_testBit i).symm
  · rintro rfl
    decide

/-- The last register of a list is its highest bit. -/
theorem log2_eq_of_getLast? {set : UInt16} {r : Register}
    (h : (Register.ofSet set).getLast? = some r) : set.toNat.log2 = r.val := by
  obtain ⟨front, hfront⟩ := List.getLast?_eq_some_iff.mp h
  have hbit : set.toNat.testBit r.val = true := mem_ofSet_iff.mp (by rw [hfront]; simp)
  have hsorted : (Register.ofSet set).Pairwise (· < ·) := (List.pairwise_lt_finRange 16).filter _
  have hbeyond : ∀ i, r.val + 1 ≤ i → set.toNat.testBit i = false := by
    intro i hi
    by_cases hwidth : i < 16
    · by_contra hset
      have hmem : (⟨i, hwidth⟩ : Register) ∈ front ++ [r] :=
        hfront ▸ mem_ofSet_iff.mpr (Bool.eq_true_of_not_eq_false hset)
      have hle : (⟨i, hwidth⟩ : Register) ≤ r := by
        rcases List.mem_append.mp hmem with hin | hin
        · rw [hfront] at hsorted
          exact ((List.pairwise_append.mp hsorted).2.2 _ hin r (List.mem_singleton.mpr rfl)).le
        · exact (List.mem_singleton.mp hin).le
      exact absurd (Fin.le_def.mp hle) (by show ¬ i ≤ r.val; omega)
    · exact Nat.testBit_lt_two_pow
        (set.toNat_lt.trans_le (Nat.pow_le_pow_right (by decide) (by omega)))
  have hne : set.toNat ≠ 0 := by
    intro hzero
    rw [hzero, Nat.zero_testBit] at hbit
    cases hbit
  exact (Nat.log2_eq_iff hne).mpr
    ⟨Nat.ge_two_pow_of_testBit hbit, Nat.lt_pow_two_of_testBit _ hbeyond⟩

/-- The last register is counted from the top. -/
theorem distance_leadingZeros16 {set : UInt16} {r : Register}
    (h : (Register.ofSet set).getLast? = some r) :
    Checked.distance 15 (leadingZeros16 set) = .ok r.val := by
  have hne : set ≠ 0 := by
    rintro rfl
    have hnone : Register.ofSet 0 = [] := by decide
    rw [hnone] at h
    cases h
  have hr := r.isLt
  have hback : 15 - (15 - r.val) = r.val := by omega
  rw [leadingZeros16, if_neg hne, log2_eq_of_getLast? h,
    Checked.distance_eq (by omega), hback]

/-! ## Block transfers -/

section
variable (n : Register) (first : Option Register) (newBase : UInt32) (userBank : Bool)

@[simp] theorem storedValueChecked_eq (r : Register) (s : CpuState) :
    core.storedValueChecked n first newBase userBank r s =
      .ok (core.storedValue n first newBase userBank r s) := by
  simp only [storedValueChecked, storedValue, CpuState.regInModeChecked_eq, Checked.pure_eq,
    Checked.ite_ok]

theorem storeBlockChecked_eq {value : Register → CpuState → Checked UInt32}
    {exact : Register → CpuState → UInt32} (h : ∀ r s, value r s = .ok (exact r s))
    (list : List Register) (address : UInt32) (access : Access) :
    core.storeBlockChecked value list address access =
      run (core.storeBlock exact list address access) := by
  induction list generalizing address access with
  | nil => rfl
  | cons r list ih =>
    rw [storeBlockChecked, funext (h r), evaluate_ok, ih]
    rfl

theorem loadBlockChecked_eq (list : List Register) (address : UInt32) (access : Access) :
    core.loadBlockChecked userBank list address access =
      run (core.loadBlock userBank list address access) := by
  induction list generalizing address access with
  | nil => rfl
  | cons r list ih =>
    simp only [loadBlockChecked, loadBlock, loadChecked_eq, CpuState.setRegInModeChecked_eq,
      Checked.pure_eq, Checked.ite_ok, alter_ok, ih, run_pure, run_bind, run_ite]

end

/-- Whether a transfer of no registers stores a program counter that is too high: after the base
has moved, which may be the program counter itself, an instruction's size on top of it leaves the
range. -/
def storesPastTop (n : Register) (t : BlockTransfer) (m : Machine σ) : Bool :=
  let after := (core.setReg n (Address.move (m.cpu.reg n) 0x40 t.up) m).2.cpu
  !core.processor.isV5 && !t.load && 2 ^ 32 ≤ after.pc.toNat + after.instructionSize.toNat

/-- Nothing but the sum of a store can leave its range. -/
theorem transferNothingChecked_eq (n : Register) (t : BlockTransfer) (m : Machine σ) :
    core.transferNothingChecked n t m =
      if core.storesPastTop n t m then .error .outOfRange
      else .ok (core.transferNothing n t m) := by
  simp only [transferNothingChecked, setRegChecked_eq, loadChecked_eq, jumpChecked_eq,
    CpuState.instructionSizeChecked_eq, Checked.ok_bind, run_bind]
  unfold transferNothing storesPastTop
  cases core.processor.isV5 with
  | true => rfl
  | false =>
    cases t.load with
    | true => rfl
    | false =>
      let after := (core.setReg n (Address.move (m.cpu.reg n) 0x40 t.up) m).2
      show (do
        let value ← evaluate fun s => Checked.add s.pc s.instructionSize
        run (core.store .word _ value Access.nonSequential) : CheckedM σ Unit) after = _
      show ((Checked.add after.cpu.pc after.cpu.instructionSize >>= fun value =>
        pure (value, after)) >>= _) = _
      by_cases hpast : 2 ^ 32 ≤ after.cpu.pc.toNat + after.cpu.instructionSize.toNat
      · rw [Checked.add_past hpast, if_pos (by simpa using hpast)]
        rfl
      · rw [Checked.add_eq (by omega), if_neg (by simpa using hpast)]
        rfl

/-- A transfer of some registers evaluates nothing out of range. -/
theorem blockTransferChecked_of_ne (n : Register) {set : UInt16} (t : BlockTransfer)
    (hset : set ≠ 0) : core.blockTransferChecked n set t = run (core.blockTransfer n set t) := by
  have hempty : (Register.ofSet set).isEmpty ≠ true := fun h => hset ((isEmpty_ofSet_iff set).mp h)
  obtain ⟨r, hlast⟩ : ∃ r, (Register.ofSet set).getLast? = some r :=
    Option.ne_none_iff_exists'.mp fun hnone =>
      hempty (List.isEmpty_iff.mpr (List.getLast?_eq_none_iff.mp hnone))
  have hbank : t.userBank (Register.ofSet set) = (t.statusBit && !(t.load && isBit set 15)) := by
    rw [BlockTransfer.userBank, contains_ofSet]
    rfl
  have hmoves : t.movesBase core.processor.isV5 n (Register.ofSet set) =
      (t.writeback && (!t.load || !isBit set n.val || (core.processor.isV5 &&
        ((Register.ofSet set).length == 1 || r.val != n.val)))) := by
    have hne : (some r != some n) = (r.val != n.val) := by
      rw [Bool.eq_iff_iff, bne_iff_ne, bne_iff_ne, Ne, Ne, Option.some_inj, Fin.ext_iff]
    rw [BlockTransfer.movesBase, contains_ofSet, hlast, hne]
  simp only [blockTransferChecked, blockTransfer, if_neg hset, if_neg hempty,
    selectChecked_finRange, mul_length_ofSet, distance_leadingZeros16 hlast, lift_ok, run_pure_bind,
    Checked.isBit_short set n.isLt, Checked.isBit_short set (show 15 < 16 by decide),
    loadBlockChecked_eq,
    storeBlockChecked_eq core (core.storedValueChecked_eq n (Register.ofSet set).head? _ _),
    CpuState.setCpsrChecked_eq, alter_ok, jumpChecked_eq, setLoadedChecked_eq, hbank, hmoves,
    run_pure, run_bind, run_ite]
  refine run_bind_of fun base => ?_
  cases hload : t.load with
  | true =>
    simp only [↓reduceIte]
    refine run_bind_of fun target => ?_
    split_ifs <;> cases target <;> rfl
  | false =>
    simp only [Bool.false_eq_true, ↓reduceIte]
    refine congrArg run (bind_congr fun _ => ?_)
    split_ifs <;> rfl

theorem blockTransferChecked_eq (n : Register) (set : UInt16) (t : BlockTransfer)
    (m : Machine σ) :
    core.blockTransferChecked n set t m =
      if (Register.ofSet set).isEmpty && core.storesPastTop n t m then .error .outOfRange
      else .ok (core.blockTransfer n set t m) := by
  by_cases hset : set = 0
  · have hempty : (Register.ofSet set).isEmpty = true := (isEmpty_ofSet_iff set).mpr hset
    have hplain : core.blockTransfer n set t = (do
        core.transferNothing n t
        if t.load then idle else setAccess Access.nonSequential) := if_pos hempty
    rw [blockTransferChecked, if_pos hset, hempty, Bool.true_and, hplain]
    show (core.transferNothingChecked n t m >>= _) = _
    rw [transferNothingChecked_eq]
    cases core.storesPastTop n t m <;> rfl
  · have hempty : (Register.ofSet set).isEmpty = false :=
      Bool.eq_false_iff.mpr fun h => hset ((isEmpty_ofSet_iff set).mp h)
    rw [core.blockTransferChecked_of_ne n t hset, hempty]
    rfl

end Core
end Handheld
