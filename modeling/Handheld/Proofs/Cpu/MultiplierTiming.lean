import Handheld.Proofs.Cpu.ExactProducts

/-!
# The time of a multiplier

A multiplication waits for an internal cycle and for one more in each turn of a loop, which masks
ever more low bytes of the multiplier away. The loop counts nothing. It is left as soon as no bits
remain under the mask or, of a signed multiplier, nothing but copies of the sign. That it comes to
an end at all is due to the mask, which runs empty.

* `Core.MultiplierLoop` is the loop as a relation between the machines before and after it;
* `Core.multiplierLoop_of_lt` is the bridge to the bounded count of its turns: a count that stays
  below its bound is that of a loop that ends;
* `Core.multiplierSteps_eq` reads the count off the bits of the multiplier, where `Core.UsedUp`
  says that no more of its bytes matter.

Main statement: `Core.multiplication_time` for the wait and, by `Core.executeMultiply_cycles`, for
the instructions that wait.
-/

namespace Handheld

open Word

/-! ## Bits from a position up -/

namespace Word

/-- The word with all bits set from a position up. -/
def maskFrom (n : ℕ) : UInt32 := ⟨BitVec.allOnes 32 <<< n⟩

/-- All bits of the word from a position up have one value. -/
def AllFrom (x : UInt32) (n : ℕ) (bit : Bool) : Prop := ∀ i < 32, n ≤ i → x.toNat.testBit i = bit

instance (x : UInt32) (n : ℕ) (bit : Bool) : Decidable (AllFrom x n bit) :=
  inferInstanceAs (Decidable (∀ i < 32, n ≤ i → x.toNat.testBit i = bit))

theorem testBit_maskFrom (n : ℕ) {i : ℕ} (hi : i < 32) :
    (maskFrom n).toNat.testBit i = decide (n ≤ i) := by
  show (BitVec.allOnes 32 <<< n).toNat.testBit i = _
  rw [BitVec.testBit_toNat, BitVec.getLsbD_shiftLeft, BitVec.getLsbD_allOnes]
  have hin : i - n < 32 := by omega
  by_cases h : n ≤ i
  · simp [hi, hin, h]
  · simp [hi, hin, h, Nat.lt_of_not_le h]

theorem testBit_and_maskFrom (x : UInt32) (n : ℕ) {i : ℕ} (hi : i < 32) :
    (x &&& maskFrom n).toNat.testBit i = (x.toNat.testBit i && decide (n ≤ i)) := by
  rw [UInt32.toNat_and, Nat.testBit_and, testBit_maskFrom n hi]

theorem maskFrom_shiftLeft (n : ℕ) : maskFrom n <<< 8 = maskFrom (n + 8) := by
  have height : (8 : UInt32).toNat = 8 := rfl
  apply ext_testBit
  intro i hi
  rw [testBit_shiftLeft _ (by decide) hi, height, testBit_maskFrom _ hi,
    testBit_maskFrom _ (by omega)]
  by_cases h : n + 8 ≤ i
  · have hlow : 8 ≤ i := by omega
    have hrest : n ≤ i - 8 := by omega
    simp [h, hlow, hrest]
  · simp [h]
    omega

/-- A masked word is empty, or the whole mask, if its bits under the mask say so. -/
theorem and_maskFrom_eq_iff (x : UInt32) (n : ℕ) (bit : Bool) :
    x &&& maskFrom n = (if bit then maskFrom n else 0) ↔ AllFrom x n bit := by
  have hwanted : ∀ i < 32,
      (if bit then maskFrom n else 0).toNat.testBit i = (bit && decide (n ≤ i)) := by
    intro i hi
    cases bit with
    | false => simp
    | true => simpa using testBit_maskFrom n hi
  constructor
  · intro h i hi hn
    have hbit := testBit_and_maskFrom x n hi
    rw [h, hwanted i hi, decide_eq_true hn, Bool.and_true, Bool.and_true] at hbit
    exact hbit.symm
  · intro h
    apply ext_testBit
    intro i hi
    rw [testBit_and_maskFrom x n hi, hwanted i hi]
    by_cases hn : n ≤ i
    · rw [h i hi hn]
    · simp [hn]

/-- Bits that a mask leaves alone. -/
theorem allFrom_and_maskFrom {x : UInt32} {n k : ℕ} {bit : Bool} (h : n ≤ k) :
    AllFrom (x &&& maskFrom n) k bit ↔ AllFrom x k bit := by
  have hsame : ∀ i < 32, k ≤ i →
      (x &&& maskFrom n).toNat.testBit i = x.toNat.testBit i := by
    intro i hi hk
    rw [testBit_and_maskFrom x n hi, decide_eq_true (h.trans hk), Bool.and_true]
  constructor
  · intro hall i hi hk
    rw [← hsame i hi hk, hall i hi hk]
  · intro hall i hi hk
    rw [hsame i hi hk, hall i hi hk]

end Word

namespace Core

open MachineM

variable {σ : Type} {isSigned : Bool} {multiplier mask : UInt32}

/-! ## The loop -/

/-- Under the mask nothing is left of the multiplier or, if it is signed, only copies of its
sign. -/
def Spent (isSigned : Bool) (multiplier mask : UInt32) : Prop :=
  multiplier &&& mask = 0 ∨ isSigned = true ∧ multiplier &&& mask = mask

/-- The loop, from the machine that enters it to the one that leaves it. The multiplier is masked
for good, a turn takes a cycle, and the mask goes up by a byte. -/
inductive MultiplierLoop (isSigned : Bool) :
    UInt32 → UInt32 → Machine σ → Machine σ → Prop
  | leave {multiplier mask : UInt32} {m : Machine σ} (spent : Spent isSigned multiplier mask) :
    MultiplierLoop isSigned multiplier mask m m
  | turn {multiplier mask : UInt32} {m last : Machine σ}
    (unspent : ¬ Spent isSigned multiplier mask)
    (rest : MultiplierLoop isSigned (multiplier &&& mask) (mask <<< 8) (tick 1 m).2 last) :
    MultiplierLoop isSigned multiplier mask m last

/-- The loop has one outcome at most. -/
theorem multiplierLoop_unique {m last last' : Machine σ}
    (h : MultiplierLoop isSigned multiplier mask m last)
    (h' : MultiplierLoop isSigned multiplier mask m last') : last = last' := by
  induction h with
  | leave spent =>
    cases h' with
    | leave => rfl
    | turn unspent => exact absurd spent unspent
  | turn unspent _ ih =>
    cases h' with
    | leave spent => exact absurd spent unspent
    | turn _ rest => exact ih rest

/-! ## Counting the turns -/

theorem spent_iff : Spent isSigned multiplier mask ↔
    (multiplier &&& mask == 0 || (isSigned && multiplier &&& mask == mask)) = true := by
  simp [Spent]

theorem multiplierSteps_of_spent (h : Spent isSigned multiplier mask) (bound : ℕ) :
    multiplierSteps isSigned bound multiplier mask = 0 := by
  cases bound with
  | zero => rfl
  | succ bound => exact if_pos (spent_iff.mp h)

theorem multiplierSteps_of_not_spent (h : ¬ Spent isSigned multiplier mask) (bound : ℕ) :
    multiplierSteps isSigned (bound + 1) multiplier mask =
      1 + multiplierSteps isSigned bound (multiplier &&& mask) (mask <<< 8) :=
  if_neg (mt spent_iff.mpr h)

/-- As long as the count of the turns stays below its bound, it is the loop that ends, and each
turn has taken its cycle. -/
theorem multiplierLoop_of_lt {bound : ℕ} (m : Machine σ)
    (h : multiplierSteps isSigned bound multiplier mask < bound) :
    MultiplierLoop isSigned multiplier mask m
      { m with
        cycles := m.cycles +
          UInt64.ofNat (multiplierSteps isSigned bound multiplier mask) } := by
  induction bound generalizing multiplier mask m with
  | zero => exact absurd h (Nat.not_lt_zero _)
  | succ bound ih =>
    by_cases hspent : Spent isSigned multiplier mask
    · have hnone : m.cycles + UInt64.ofNat 0 = m.cycles := UInt64.add_zero _
      rw [multiplierSteps_of_spent hspent, hnone]
      exact .leave hspent
    · -- One turn on, the count has one less to go to its bound and the machine is a cycle later.
      rw [multiplierSteps_of_not_spent hspent] at h ⊢
      rw [UInt64.ofNat_add, ← UInt64.add_assoc]
      apply MultiplierLoop.turn hspent
      exact ih (tick 1 m).2 (by omega)

/-! ## The bits of the multiplier -/

/-- The `k + 1` lowest bytes are all that counts of the multiplier: the bits above them are zeros
or, if it is signed, all ones. -/
def UsedUp (isSigned : Bool) (multiplier : UInt32) (k : ℕ) : Prop :=
  AllFrom multiplier (8 * (k + 1)) false ∨
    isSigned = true ∧ AllFrom multiplier (8 * (k + 1)) true

instance (isSigned : Bool) (multiplier : UInt32) (k : ℕ) :
    Decidable (UsedUp isSigned multiplier k) :=
  inferInstanceAs (Decidable (_ ∨ _ ∧ _))

/-- Four bytes are the whole of a word. -/
theorem usedUp_three (isSigned : Bool) (multiplier : UInt32) : UsedUp isSigned multiplier 3 := by
  left
  intro i hi hn
  omega

theorem spent_maskFrom_iff (k : ℕ) :
    Spent isSigned multiplier (maskFrom (8 * (k + 1))) ↔ UsedUp isSigned multiplier k := by
  have hzeros := and_maskFrom_eq_iff multiplier (8 * (k + 1)) false
  have hones := and_maskFrom_eq_iff multiplier (8 * (k + 1)) true
  simp only [Bool.false_eq_true, if_false, if_true] at hzeros hones
  rw [Spent, UsedUp, hzeros, hones]

/-- What the mask has taken away does not matter to later turns. -/
theorem usedUp_and_maskFrom_iff {j k : ℕ} (h : j ≤ k) :
    UsedUp isSigned (multiplier &&& maskFrom (8 * (j + 1))) k ↔ UsedUp isSigned multiplier k := by
  have hle : 8 * (j + 1) ≤ 8 * (k + 1) := by omega
  rw [UsedUp, UsedUp, allFrom_and_maskFrom hle, allFrom_and_maskFrom hle]

/-- From the mask of turn `j` on the loop turns until the multiplier is used up for the first
time, provided that the bound of the count lets it. -/
theorem multiplierSteps_eq {j turns bound : ℕ} (hbound : turns < bound)
    (hlast : UsedUp isSigned multiplier (j + turns))
    (hbefore : ∀ i < turns, ¬ UsedUp isSigned multiplier (j + i)) :
    multiplierSteps isSigned bound multiplier (maskFrom (8 * (j + 1))) = turns := by
  induction turns generalizing j bound multiplier with
  | zero => exact multiplierSteps_of_spent ((spent_maskFrom_iff j).mpr hlast) bound
  | succ turns ih =>
    obtain ⟨bound, rfl⟩ : ∃ b, bound = b + 1 := ⟨bound - 1, by omega⟩
    have hfirst : ¬ Spent isSigned multiplier (maskFrom (8 * (j + 1))) := by
      rw [spent_maskFrom_iff]
      exact hbefore 0 (Nat.succ_pos _)
    -- The next turn begins with the multiplier masked and the mask one byte higher.
    have hrest : multiplierSteps isSigned bound (multiplier &&& maskFrom (8 * (j + 1)))
        (maskFrom (8 * (j + 1 + 1))) = turns := by
      apply ih (by omega)
      · rw [usedUp_and_maskFrom_iff (by omega), Nat.add_right_comm]
        exact hlast
      · intro i hi
        rw [usedUp_and_maskFrom_iff (by omega), Nat.add_right_comm]
        exact hbefore (i + 1) (by omega)
    rw [multiplierSteps_of_not_spent hfirst, maskFrom_shiftLeft]
    exact (congrArg (1 + ·) hrest).trans (Nat.add_comm _ _)

/-! ## The time -/

/-- The further cycles are the bytes that count beyond the lowest one. -/
theorem multiplierCycles_eq {k : ℕ} (hk : IsLeast {k | UsedUp isSigned multiplier k} k) :
    multiplierCycles multiplier isSigned = k := by
  have hle : k ≤ 3 := hk.2 (usedUp_three isSigned multiplier)
  apply multiplierSteps_eq (j := 0) (Nat.lt_succ_of_le hle)
  · rw [Nat.zero_add]
    exact hk.1
  · intro i hi hused
    rw [Nat.zero_add] at hused
    exact absurd (hk.2 hused) (by omega)

/-- Copies of the sign do not count, but only a signed multiplier has them. -/
example : (UsedUp true 0xFFFFFF80 0 ∧ multiplierCycles 0xFFFFFF80 true = 0) ∧
    (¬ UsedUp false 0xFFFFFF80 2 ∧ multiplierCycles 0xFFFFFF80 false = 3) := by decide

theorem exists_isLeast_usedUp (isSigned : Bool) (multiplier : UInt32) :
    ∃ k ≤ 3, IsLeast {k | UsedUp isSigned multiplier k} k := by
  have hexists : ∃ k, UsedUp isSigned multiplier k := ⟨3, usedUp_three isSigned multiplier⟩
  refine ⟨Nat.find hexists, Nat.find_min' hexists (usedUp_three isSigned multiplier), ?_, ?_⟩
  · exact Nat.find_spec hexists
  · intro k hk
    exact Nat.find_min' hexists hk

/-- Nothing but the clock and the kind of the next fetch changes. -/
theorem multiplyIdle_eq {k : ℕ} (hk : IsLeast {k | UsedUp isSigned multiplier k} k)
    (m : Machine σ) :
    multiplyIdle multiplier isSigned m =
      ((), { m with
        cpu := { m.cpu with accessType := Access.nonSequential }
        cycles := m.cycles + UInt64.ofNat (1 + k) }) := by
  have hcycles : m.cycles + 1 + (multiplierCycles multiplier isSigned).toUInt64 =
      m.cycles + UInt64.ofNat (1 + k) := by
    rw [multiplierCycles_eq hk, UInt64.add_assoc, UInt64.ofNat_add]
    rfl
  rw [← hcycles]
  rfl

/-- The time is that of the loop, entered after the internal cycle. -/
theorem multiplierLoop_multiplyIdle (multiplier : UInt32) (isSigned : Bool) (m : Machine σ) :
    MultiplierLoop isSigned multiplier 0xFFFFFF00 (idle m).2
      (multiplyIdle multiplier isSigned m).2 := by
  obtain ⟨k, hle, hk⟩ := exists_isLeast_usedUp isSigned multiplier
  have hcycles : multiplierSteps isSigned 4 multiplier 0xFFFFFF00 = k := multiplierCycles_eq hk
  have hlt : multiplierSteps isSigned 4 multiplier 0xFFFFFF00 < 4 := by omega
  exact multiplierLoop_of_lt (idle m).2 hlt

/-! ## Instructions -/

section
variable (core : Core σ) {op : Arm.MulOp} {d n : Register} (r m : Register)

/-- The wait is the last that a multiplication does. A cycle for a long product and one for the
accumulation have passed by then. -/
theorem executeMultiply_eq_multiplyIdle (setFlags : Bool) (machine : Machine σ)
    (hd : d ≠ Register.pc) (hn : op.isLong = true → n ≠ Register.pc) :
    ∃ start : Machine σ,
      start.cycles = machine.cycles + UInt64.ofNat (op.isLong.toNat + op.accumulates.toNat) ∧
      core.executeMultiply op setFlags d n r m machine =
        multiplyIdle (machine.cpu.reg r) (!op.isUnsigned) start := by
  unfold executeMultiply
  simp only [core.setReg_of_ne_pc hd]
  generalize core.processor.isV5 = isV5
  cases op with
  | mul =>
    cases setFlags <;> cases isV5 <;> refine ⟨_, ?_, rfl⟩ <;> exact (UInt64.add_zero _).symm
  | mla =>
    cases setFlags <;> cases isV5 <;> exact ⟨_, rfl, rfl⟩
  | umull | umlal | smull | smlal =>
    simp only [core.setReg_of_ne_pc (hn rfl)]
    cases setFlags <;> cases isV5 <;> exact ⟨_, rfl, rfl⟩

/-- The time of a multiplication after its fetch. -/
theorem executeMultiply_cycles (setFlags : Bool) (machine : Machine σ) (hd : d ≠ Register.pc)
    (hn : op.isLong = true → n ≠ Register.pc) {k : ℕ}
    (hk : IsLeast {k | UsedUp (!op.isUnsigned) (machine.cpu.reg r) k} k) :
    (core.executeMultiply op setFlags d n r m machine).2.cycles =
      machine.cycles + UInt64.ofNat (op.isLong.toNat + op.accumulates.toNat + (1 + k)) := by
  obtain ⟨start, hstart, hlast⟩ :=
    executeMultiply_eq_multiplyIdle core r m setFlags machine hd hn
  rw [hlast, multiplyIdle_eq hk, hstart, UInt64.ofNat_add _ (1 + k), ← UInt64.add_assoc]

end

/-! ## All multiplications -/

/-- A multiplication waits for one cycle and for one more for each byte of its multiplier that
counts beyond the lowest. The loop behind it, which has no bound, ends for every multiplier, and in
the machine that this time leaves. An instruction that multiplies takes this time behind its fetch,
and one cycle more for a long product and one for the accumulation. -/
theorem multiplication_time (multiplier : UInt32) (isSigned : Bool) (m : Machine σ) :
    ∃ k ≤ 3, IsLeast {k | UsedUp isSigned multiplier k} k ∧
      multiplyIdle multiplier isSigned m =
        ((), { m with
          cpu := { m.cpu with accessType := Access.nonSequential }
          cycles := m.cycles + UInt64.ofNat (1 + k) }) ∧
      (∀ last, MultiplierLoop isSigned multiplier 0xFFFFFF00 (idle m).2 last ↔
        last = (multiplyIdle multiplier isSigned m).2) ∧
      ∀ (core : Core σ) (op : Arm.MulOp) (setFlags : Bool) (d n r factor : Register),
        d ≠ Register.pc → (op.isLong = true → n ≠ Register.pc) → (!op.isUnsigned) = isSigned →
        m.cpu.reg r = multiplier →
        (core.executeMultiply op setFlags d n r factor m).2.cycles =
          m.cycles + UInt64.ofNat (op.isLong.toNat + op.accumulates.toNat + (1 + k)) := by
  obtain ⟨k, hle, hk⟩ := exists_isLeast_usedUp isSigned multiplier
  have hloop := multiplierLoop_multiplyIdle multiplier isSigned m
  refine ⟨k, hle, hk, multiplyIdle_eq hk m, fun last => ⟨?_, ?_⟩, ?_⟩
  · intro h
    exact multiplierLoop_unique h hloop
  · rintro rfl
    exact hloop
  · rintro core op setFlags d n r factor hd hn rfl rfl
    exact executeMultiply_cycles core r factor setFlags m hd hn hk

end Core
end Handheld
