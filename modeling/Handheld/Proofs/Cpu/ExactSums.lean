import Handheld.FlatMemory
import Handheld.Proofs.Cpu.InstructionCourse
import Handheld.Proofs.Thumb.Expansion

/-!
# Sums and differences of integers

What the arithmetic unit puts out, told by the sum or difference of the integers that its operands
stand for. The same word stands for an unsigned and for a signed integer: the carry tells whether
the exact result of the unsigned ones fits, the overflow flag whether that of the signed ones does.
-/

namespace Handheld

open Word

/-! ## Words as integers -/

namespace Word

/-- The words that stand for a negative integer are those with the highest bit set. -/
theorem toInt32_cases (x : UInt32) :
    x.toNat < 2 ^ 31 ∧ x.toInt32.toInt = x.toNat ∨
      2 ^ 31 ≤ x.toNat ∧ x.toNat < 2 ^ 32 ∧ x.toInt32.toInt = x.toNat - 2 ^ 32 := by
  have hlt := x.toNat_lt
  have hsigned : x.toInt32.toInt = if 2 * x.toNat < 2 ^ 32 then (x.toNat : ℤ) else x.toNat - 2 ^ 32 :=
    BitVec.toInt_eq_toNat_cond x.toBitVec
  rw [hsigned]
  split <;> omega

theorem isBit_sign (x : UInt32) : isBit x 31 = decide (2 ^ 31 ≤ x.toNat) := by
  have hlt := x.toNat_lt
  rw [isBit_eq_decide _ (by decide), decide_eq_decide]
  omega

theorem isBit_sign_eq_neg (x : UInt32) : isBit x 31 = decide (x.toInt32.toInt < 0) := by
  have hx := toInt32_cases x
  rw [isBit_sign, decide_eq_decide]
  omega

theorem isBit_xor (x y : UInt32) {i : ℕ} (hi : i < 32) :
    isBit (x ^^^ y) i = (isBit x i ^^ isBit y i) := by
  rw [isBit_eq_testBit _ hi, isBit_eq_testBit _ hi, isBit_eq_testBit _ hi, UInt32.toNat_xor,
    Nat.testBit_xor]

theorem toNat_not (x : UInt32) : (~~~x).toNat = 2 ^ 32 - 1 - x.toNat := UInt32.toNat_not x

/-- The word that an integer leaves of itself. -/
theorem toNat_ofInt (x : ℤ) : ((UInt32.ofInt x).toNat : ℤ) = x % 2 ^ 32 := by
  have hlow := Int.emod_nonneg x (by decide : (2 ^ 32 : ℤ) ≠ 0)
  have hhigh := Int.emod_lt_of_pos x (by decide : (0 : ℤ) < 2 ^ 32)
  rw [UInt32.ofInt, UInt32.toNat_ofNat']
  omega

theorem eq_ofInt {x : UInt32} {k : ℤ} (h : (x.toNat : ℤ) = k % 2 ^ 32) : x = UInt32.ofInt k := by
  rw [← UInt32.toNat_inj]
  have := toNat_ofInt k
  omega

end Word

/-! ## What is left behind -/

/-- The status with flags set as a list says. -/
def withFlags (status : UInt32) (flags : List (Flag × Bool)) : UInt32 :=
  flags.foldl (fun status p => setBit status p.1.position p.2) status

/-- What an instruction leaves behind: integers, of which registers keep the low 32 bits, and the
flags that it sets. -/
structure Outcome where
  results : List (Register × ℤ)
  flags : List (Flag × Bool)

/-- The state with the results and the flags of an outcome, and all else as it was. -/
def CpuState.withOutcome (s : CpuState) (o : Outcome) : CpuState :=
  { o.results.foldl (fun s p => s.setReg p.1 (UInt32.ofInt p.2)) s with
    cpsr := withFlags s.cpsr o.flags }

/-- A sum whose value and flags are those of exact results, one of the unsigned and one of the
signed integers. -/
structure Sum32.Exact (s : Sum32) (unsigned signed : ℤ) (carry : Prop) : Prop where
  value : (s.value.toNat : ℤ) = unsigned % 2 ^ 32
  carry : s.carry = true ↔ carry
  overflow : s.overflow = true ↔ signed < -2 ^ 31 ∨ 2 ^ 31 ≤ signed

/-- There is no other sum with the same exact results. -/
theorem Sum32.Exact.unique {s t : Sum32} {unsigned signed : ℤ} {carry : Prop}
    (hs : s.Exact unsigned signed carry) (ht : t.Exact unsigned signed carry) : s = t := by
  obtain ⟨value, c, v⟩ := s
  obtain ⟨value', c', v'⟩ := t
  have hvalue : value = value' := (eq_ofInt hs.value).trans (eq_ofInt ht.value).symm
  have hcarry : c = c' := Bool.eq_iff_iff.mpr (hs.carry.trans ht.carry.symm)
  have hoverflow : v = v' := Bool.eq_iff_iff.mpr (hs.overflow.trans ht.overflow.symm)
  rw [hvalue, hcarry, hoverflow]

namespace Arithmetic

/-- A sum or difference of two words. -/
inductive SumKind where
  | add
  | sub
  | addCarry
  | subCarry
  | negate
  deriving DecidableEq

namespace SumKind

/-- What the arithmetic unit puts out for two words and a carry. -/
def sum (kind : SumKind) (a b : UInt32) (carry : Bool) : Sum32 :=
  match kind with
  | add => Arithmetic.add a b
  | sub => Arithmetic.sub a b
  | addCarry => Arithmetic.addCarry a b carry
  | subCarry => Arithmetic.subCarry a b carry
  | negate => Arithmetic.sub 0 b

/-- The sum or difference of two integers and a carry, which keeps a difference from being one
less. -/
def exact (kind : SumKind) (a b : ℤ) (carry : Bool) : ℤ :=
  match kind with
  | add => a + b
  | sub => a - b
  | addCarry => a + b + carry.toInt
  | subCarry => a - b - (1 - carry.toInt)
  | negate => -b

/-- Whether the carry tells that the result is too large, and not that it is at least 0. -/
def isAddition (kind : SumKind) : Bool := kind matches add | addCarry

/-- The carry and overflow flag of two words by the exact results of the integers that they stand
for, and the other two by the word that is left of the result. -/
def flags (kind : SumKind) (a b : UInt32) (carry : Bool) : List (Flag × Bool) :=
  let unsigned := kind.exact a.toNat b.toNat carry
  let signed := kind.exact a.toInt32.toInt b.toInt32.toInt carry
  let value := UInt32.ofInt unsigned
  [(.negative, decide (value.toInt32.toInt < 0)),
    (.zero, decide (value = 0)),
    (.carry, decide (if kind.isAddition then 2 ^ 32 - 1 < unsigned else 0 ≤ unsigned)),
    (.overflow, decide (signed < -2 ^ 31 ∨ 2 ^ 31 ≤ signed))]

end SumKind

/-! ## The arithmetic unit -/

section
variable (a b : UInt32)

theorem exact_add :
    (add a b).Exact (a.toNat + b.toNat) (a.toInt32.toInt + b.toInt32.toInt)
      (2 ^ 32 - 1 < (a.toNat + b.toNat : ℤ)) := by
  have ha := toInt32_cases a
  have hb := toInt32_cases b
  have hvalue : (a + b).toNat = (a.toNat + b.toNat) % 2 ^ 32 := UInt32.toNat_add a b
  have hlong : (a.toUInt64 + b.toUInt64).toNat = a.toNat + b.toNat := by
    rw [UInt64.toNat_add, UInt32.toNat_toUInt64, UInt32.toNat_toUInt64]
    omega
  refine ⟨?_, ?_, ?_⟩
  · show ((a + b).toNat : ℤ) = _
    omega
  · show decide (0xFFFFFFFF < a.toUInt64 + b.toUInt64) = true ↔ _
    rw [decide_eq_true_iff, UInt64.lt_iff_toNat_lt, hlong]
    show 2 ^ 32 - 1 < _ ↔ _
    omega
  · show isBit ((a ^^^ (a + b)) &&& (b ^^^ (a + b))) 31 = true ↔ _
    rw [isBit_and _ _ (by decide), isBit_xor _ _ (by decide), isBit_xor _ _ (by decide),
      isBit_sign, isBit_sign, isBit_sign, hvalue]
    simp only [Bool.and_eq_true, bne_iff_ne, ne_eq, decide_eq_decide]
    omega

theorem exact_sub :
    (sub a b).Exact (a.toNat - b.toNat) (a.toInt32.toInt - b.toInt32.toInt)
      (0 ≤ (a.toNat - b.toNat : ℤ)) := by
  have ha := toInt32_cases a
  have hb := toInt32_cases b
  have hvalue : (a - b).toNat = (2 ^ 32 - b.toNat + a.toNat) % 2 ^ 32 := UInt32.toNat_sub a b
  refine ⟨?_, ?_, ?_⟩
  · show ((a - b).toNat : ℤ) = _
    omega
  · show decide (b ≤ a) = true ↔ _
    rw [decide_eq_true_iff, UInt32.le_iff_toNat_le]
    omega
  · show isBit ((a ^^^ b) &&& (a ^^^ (a - b))) 31 = true ↔ _
    rw [isBit_and _ _ (by decide), isBit_xor _ _ (by decide), isBit_xor _ _ (by decide),
      isBit_sign, isBit_sign, isBit_sign, hvalue]
    simp only [Bool.and_eq_true, bne_iff_ne, ne_eq, decide_eq_decide]
    omega

variable (carry : Bool)

theorem exact_addCarry :
    (addCarry a b carry).Exact (a.toNat + b.toNat + carry.toInt)
      (a.toInt32.toInt + b.toInt32.toInt + carry.toInt)
      (2 ^ 32 - 1 < (a.toNat + b.toNat + carry.toInt : ℤ)) := by
  have ha := toInt32_cases a
  have hb := toInt32_cases b
  have hcarry : carry.toInt = 0 ∨ carry.toInt = 1 := by cases carry <;> simp
  let sum := a.toUInt64 + b.toUInt64 + carry.toUInt64
  have hsum : (sum.toNat : ℤ) = a.toNat + b.toNat + carry.toInt := by
    have hbit : (carry.toUInt64.toNat : ℤ) = carry.toInt := by cases carry <;> rfl
    show ((a.toUInt64 + b.toUInt64 + carry.toUInt64).toNat : ℤ) = _
    rw [UInt64.toNat_add, UInt64.toNat_add, UInt32.toNat_toUInt64, UInt32.toNat_toUInt64]
    omega
  have hvalue : sum.toUInt32.toNat = sum.toNat % 2 ^ 32 := UInt64.toNat_toUInt32 sum
  refine ⟨?_, ?_, ?_⟩
  · show (sum.toUInt32.toNat : ℤ) = _
    omega
  · show decide (0xFFFFFFFF < sum) = true ↔ _
    rw [decide_eq_true_iff, UInt64.lt_iff_toNat_lt]
    show 2 ^ 32 - 1 < sum.toNat ↔ _
    omega
  · show isBit (~~~(a ^^^ b) &&& (b ^^^ sum.toUInt32)) 31 = true ↔ _
    rw [isBit_and _ _ (by decide), isBit_not _ (by decide), isBit_xor _ _ (by decide),
      isBit_xor _ _ (by decide), isBit_sign, isBit_sign, isBit_sign, hvalue]
    simp only [Bool.and_eq_true, bne_iff_ne, ne_eq, decide_eq_decide, Bool.not_eq_true',
      bne_eq_false_iff_eq]
    omega

/-- The complement stands for the negative less one, so its sum is the difference less one. -/
theorem exact_subCarry :
    (subCarry a b carry).Exact (a.toNat - b.toNat - (1 - carry.toInt))
      (a.toInt32.toInt - b.toInt32.toInt - (1 - carry.toInt))
      (0 ≤ (a.toNat - b.toNat - (1 - carry.toInt) : ℤ)) := by
  have hb := toInt32_cases b
  have hnot := toInt32_cases (~~~b)
  have hcomplement := toNat_not b
  obtain ⟨hvalue, hcarry, hoverflow⟩ := exact_addCarry a (~~~b) carry
  refine ⟨hvalue.trans ?_, hcarry.trans ?_, hoverflow.trans ?_⟩ <;> omega

end

namespace SumKind

variable (kind : SumKind) (a b : UInt32) (carry : Bool)

theorem exact_sum :
    (kind.sum a b carry).Exact (kind.exact a.toNat b.toNat carry)
      (kind.exact a.toInt32.toInt b.toInt32.toInt carry)
      (if kind.isAddition then 2 ^ 32 - 1 < kind.exact a.toNat b.toNat carry
        else 0 ≤ kind.exact a.toNat b.toNat carry) := by
  cases kind with
  | add => exact exact_add a b
  | sub => exact exact_sub a b
  | addCarry => exact exact_addCarry a b carry
  | subCarry => exact exact_subCarry a b carry
  | negate =>
    have hsub := exact_sub 0 b
    rw [show ((0 : UInt32).toNat : ℤ) = 0 from rfl, show (0 : UInt32).toInt32.toInt = 0 from rfl,
      Int.zero_sub, Int.zero_sub] at hsub
    exact hsub

theorem value_sum :
    (kind.sum a b carry).value = UInt32.ofInt (kind.exact a.toNat b.toNat carry) :=
  eq_ofInt (kind.exact_sum a b carry).value

end SumKind

theorem addCarry_false (a b : UInt32) : addCarry a b false = add a b := by
  refine (exact_addCarry a b false).unique ?_
  simp only [Bool.toInt_false, Int.add_zero]
  exact exact_add a b

theorem subCarry_true (a b : UInt32) : subCarry a b true = sub a b := by
  refine (exact_subCarry a b true).unique ?_
  simp only [Bool.toInt_true, Int.sub_self, Int.sub_zero]
  exact exact_sub a b

/-- The flags of a sum are set one after the other. -/
theorem withSum_eq (status : UInt32) (s : Sum32) :
    withSum status s = withFlags status
      [(.negative, isBit s.value 31), (.zero, decide (s.value = 0)), (.carry, s.carry),
        (.overflow, s.overflow)] := by
  refine ext_isBit fun i hi => ?_
  rw [isBit_withSum _ _ hi]
  simp only [withFlags, List.foldl_cons, List.foldl_nil, Flag.position]
  rw [isBit_setBit _ _ (by decide) hi, isBit_setBit _ _ (by decide) hi,
    isBit_setBit _ _ (by decide) hi, isBit_setBit _ _ (by decide) hi]
  split_ifs <;> first | rfl | omega

theorem withSum_sum (kind : SumKind) (a b : UInt32) (carry : Bool) (status : UInt32) :
    withSum status (kind.sum a b carry) = withFlags status (kind.flags a b carry) := by
  have hexact := kind.exact_sum a b carry
  have hcarry := Bool.eq_iff_iff.mpr (hexact.carry.trans decide_eq_true_iff.symm)
  have hoverflow := Bool.eq_iff_iff.mpr (hexact.overflow.trans decide_eq_true_iff.symm)
  rw [withSum_eq, isBit_sign_eq_neg, kind.value_sum, hcarry, hoverflow]
  rfl

end Arithmetic

/-! ## Instructions -/

/-- The sum or difference that an operation of the long set computes, with its operands in
order. -/
def Arm.AluOp.sum? (op : Arm.AluOp) (a b : UInt32) :
    Option (Arithmetic.SumKind × UInt32 × UInt32) :=
  match op with
  | .sub | .cmp => some (.sub, a, b)
  | .rsb => some (.sub, b, a)
  | .add | .cmn => some (.add, a, b)
  | .adc => some (.addCarry, a, b)
  | .sbc => some (.subCarry, a, b)
  | .rsc => some (.subCarry, b, a)
  | _ => none

/-- The sum or difference that an operation of the short set computes. -/
def Thumb.AluOp.sum? : Thumb.AluOp → Option Arithmetic.SumKind
  | .adc => some .addCarry
  | .sbc => some .subCarry
  | .neg => some .negate
  | .cmp => some .sub
  | .cmn => some .add
  | _ => none

namespace Core

open MachineM Arithmetic

variable {σ : Type} (core : Core σ)

theorem aluResult_sum {op : Arm.AluOp} {a b x y : UInt32} {kind : SumKind}
    (h : op.sum? a b = some (kind, x, y)) (carry : Bool) :
    aluResult op a b carry = .inr (kind.sum x y carry) := by
  cases op <;> cases h <;> rfl

/-- A sum or difference leaves its value in the destination, if the operation writes it, and sets
the flags, if the instruction asks for them. -/
theorem executeAlu_sum {op : Arm.AluOp} {setFlags : Bool} {n d : Register} {operand : Arm.Operand}
    (hd : d ≠ Register.pc) (m : Machine σ) {kind : SumKind} {a b : UInt32}
    (hsum :
      let read := (aluOperands n (m.cpu.isFlag .carry) operand m).1
      op.sum? read.1 read.2.value = some (kind, a, b)) :
    let carry := m.cpu.isFlag .carry
    let after := (core.executeAlu op setFlags n d operand m).2.cpu
    after = { m.cpu.withOutcome
      { results := if op.writes then [(d, kind.exact a.toNat b.toNat carry)] else []
        flags := if setFlags then kind.flags a b carry else [] } with
      accessType := after.accessType } := by
  intro carry after
  let read := aluOperands n carry operand m
  obtain ⟨access, hread⟩ : ∃ access, read.2.cpu = { m.cpu with accessType := access } :=
    aluOperands_cpu n _ operand m
  have hresult : aluResult op read.1.1 read.1.2.value carry = .inr (kind.sum a b carry) :=
    aluResult_sum hsum carry
  let outcome := aluOutcome (aluResult op read.1.1 read.1.2.value carry) read.1.2.carry
    read.2.cpu.cpsr
  let flagged := if setFlags then { read.2.cpu with cpsr := outcome.2 } else read.2.cpu
  have hafter : after = if op.writes then flagged.setReg d outcome.1 else flagged := by
    show (core.executeAlu op setFlags n d operand m).2.cpu = _
    unfold executeAlu
    simp only [core.setReg_of_ne_pc hd, if_neg hd]
    cases setFlags <;> cases op.writes <;> rfl
  have hvalue : outcome.1 = UInt32.ofInt (kind.exact a.toNat b.toNat carry) := by
    rw [← kind.value_sum]
    exact congrArg (fun r => (aluOutcome r read.1.2.carry read.2.cpu.cpsr).1) hresult
  have hstatus : outcome.2 = withFlags m.cpu.cpsr (kind.flags a b carry) := by
    have hkept : read.2.cpu.cpsr = m.cpu.cpsr := by rw [hread]
    rw [← withSum_sum, ← hkept]
    exact congrArg (fun r => (aluOutcome r read.1.2.carry read.2.cpu.cpsr).2) hresult
  rw [hafter, hvalue]
  simp only [flagged, hstatus, hread]
  cases setFlags <;> cases op.writes <;> rfl

/-- The same of the short set, where an operation always sets the flags. -/
theorem executeThumbAlu_sum {op : Thumb.AluOp} {kind : SumKind} (hsum : op.sum? = some kind)
    (d s : LowRegister) (m : Machine σ) :
    let carry := m.cpu.isFlag .carry
    let a := m.cpu.low d
    let b := m.cpu.low s
    (core.executeThumbAlu op d s m).2.cpu = m.cpu.withOutcome
      { results := if op.writes then [(d.wide, kind.exact a.toNat b.toNat carry)] else []
        flags := kind.flags a b carry } := by
  intro carry a b
  have hafter : (core.executeThumbAlu op d s m).2.cpu =
      let flagged := { m.cpu with
        cpsr := Arithmetic.withSum m.cpu.cpsr (kind.sum a b carry) }
      if op.writes then flagged.setLow d (kind.sum a b carry).value else flagged := by
    cases op <;> cases hsum <;> rfl
  rw [hafter, withSum_sum, kind.value_sum]
  cases op.writes <;> rfl

/-- **Sums and differences are exact.** Of two words and a carry the arithmetic unit gives the exact
sum or difference modulo 2^32. The carry is set if the sum of the unsigned integers does not fit,
or if their difference is not below 0, the overflow flag if the result of the signed integers does
not fit, the other two by the value, and no other bit of the status changes. A sum with the carry 0
is one without, and so is a difference with the carry 1. An instruction of the long set leaves the
value in its destination and the flags in the status if it asks for them, and otherwise changes no
flag; one of the short set always sets them. -/
theorem sums_exact :
    (∀ (kind : SumKind) (a b : UInt32) (carry : Bool) (status : UInt32),
      (kind.sum a b carry).value = UInt32.ofInt (kind.exact a.toNat b.toNat carry) ∧
      Arithmetic.withSum status (kind.sum a b carry) = withFlags status (kind.flags a b carry)) ∧
    (∀ a b : UInt32, SumKind.addCarry.sum a b false = SumKind.add.sum a b false ∧
      SumKind.subCarry.sum a b true = SumKind.sub.sum a b true) ∧
    (∀ (op : Arm.AluOp) (setFlags : Bool) (n d : Register) (operand : Arm.Operand)
        (m : Machine σ) (kind : SumKind) (a b : UInt32),
      let carry := m.cpu.isFlag .carry
      let read := (aluOperands n carry operand m).1
      let after := (core.executeAlu op setFlags n d operand m).2.cpu
      d ≠ Register.pc → op.sum? read.1 read.2.value = some (kind, a, b) →
      after = { m.cpu.withOutcome
        { results := if op.writes then [(d, kind.exact a.toNat b.toNat carry)] else []
          flags := if setFlags then kind.flags a b carry else [] } with
        accessType := after.accessType }) ∧
    ∀ (op : Thumb.AluOp) (d s : LowRegister) (m : Machine σ) (kind : SumKind),
      let carry := m.cpu.isFlag .carry
      let a := m.cpu.low d
      let b := m.cpu.low s
      op.sum? = some kind →
      (core.executeThumbAlu op d s m).2.cpu = m.cpu.withOutcome
        { results := if op.writes then [(d.wide, kind.exact a.toNat b.toNat carry)] else []
          flags := kind.flags a b carry } := by
  refine ⟨?_, ?_, ?_, ?_⟩
  · intro kind a b carry status
    exact ⟨kind.value_sum a b carry, withSum_sum kind a b carry status⟩
  · intro a b
    exact ⟨addCarry_false a b, subCarry_true a b⟩
  · intro op setFlags n d operand m kind a b carry read after hd hsum
    exact core.executeAlu_sum hd m hsum
  · intro op d s m kind carry a b hsum
    exact core.executeThumbAlu_sum hsum d s m

/-- A processor about to subtract 1, and one more for the carry that is clear, from the least
signed integer. -/
def beforeDifference : Machine FlatMemory where
  cpu := (({} : CpuState).setReg 1 0x80000000).setReg 2 1
  system := {}
  log := {}

/-- The unsigned difference fits, the signed one does not. -/
theorem sums_exact_least :
    let after := ((FlatMemory.minimalCore .arm7).executeAlu .sbc true 1 0
      (.shiftedImmediate 2 .lsl 0) beforeDifference).2.cpu
    after.reg 0 = 0x7FFFFFFE ∧ after.cpsr = 0x300000D3 := by
  intro after
  have hafter := (FlatMemory.minimalCore .arm7).sums_exact.2.2.1 .sbc true 1 0
    (.shiftedImmediate 2 .lsl 0) beforeDifference .subCarry 0x80000000 1 (by decide) (by decide)
  exact ⟨congrArg (CpuState.reg · 0) hafter, congrArg CpuState.cpsr hafter⟩

end Core
end Handheld
