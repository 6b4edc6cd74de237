import Handheld.Proofs.Cpu.ExactSums

/-!
# Products of integers

What multiplications and saturating sums leave behind, told by the products and sums of the
integers that their operands stand for.
-/

namespace Handheld

open Word

/-! ## Words of integers -/

namespace Word

theorem ofInt_toNat (x : UInt32) : UInt32.ofInt x.toNat = x :=
  (eq_ofInt (Int.emod_eq_of_lt (by omega) (by have := x.toNat_lt; omega)).symm).symm

theorem ofInt_toInt32 (x : UInt32) : UInt32.ofInt x.toInt32.toInt = x := by
  have hx := toInt32_cases x
  refine (eq_ofInt ?_).symm
  omega

theorem eq_ofInt_of_toInt {x : UInt32} {k : ℤ} (h : x.toInt32.toInt = k) :
    x = UInt32.ofInt k := by
  rw [← h, ofInt_toInt32]

/-- The long word that an integer leaves of itself. -/
theorem toNat_ofInt64 (x : ℤ) : ((UInt64.ofInt x).toNat : ℤ) = x % 2 ^ 64 := by
  have hlow := Int.emod_nonneg x (by decide : (2 ^ 64 : ℤ) ≠ 0)
  have hhigh := Int.emod_lt_of_pos x (by decide : (0 : ℤ) < 2 ^ 64)
  rw [UInt64.ofInt, UInt64.toNat_ofNat']
  omega

theorem eq_ofInt64 {x : UInt64} {k : ℤ} (h : (x.toNat : ℤ) = k % 2 ^ 64) :
    x = UInt64.ofInt k := by
  rw [← UInt64.toNat_inj]
  have := toNat_ofInt64 k
  omega

theorem toInt64_cases (x : UInt64) :
    x.toNat < 2 ^ 63 ∧ x.toInt64.toInt = x.toNat ∨
      2 ^ 63 ≤ x.toNat ∧ x.toNat < 2 ^ 64 ∧ x.toInt64.toInt = x.toNat - 2 ^ 64 := by
  have hlt := x.toNat_lt
  have hsigned :
      x.toInt64.toInt = if 2 * x.toNat < 2 ^ 64 then (x.toNat : ℤ) else x.toNat - 2 ^ 64 :=
    BitVec.toInt_eq_toNat_cond x.toBitVec
  rw [hsigned]
  split <;> omega

theorem ofInt_toInt64 (x : UInt64) : UInt64.ofInt x.toInt64.toInt = x := by
  have hx := toInt64_cases x
  refine (eq_ofInt64 ?_).symm
  omega

/-- The lower half of the long word of an integer. -/
theorem toUInt32_ofInt64 (x : ℤ) : (UInt64.ofInt x).toUInt32 = UInt32.ofInt x := by
  have hx := toNat_ofInt64 x
  refine eq_ofInt ?_
  rw [UInt64.toNat_toUInt32]
  omega

/-- The upper half of the long word of an integer. -/
theorem highWord_ofInt64 (x : ℤ) :
    Arithmetic.highWord (UInt64.ofInt x) = UInt32.ofInt (x / 2 ^ 32) := by
  have hx := toNat_ofInt64 x
  have hshift : (UInt64.ofInt x >>> 32).toNat = (UInt64.ofInt x).toNat / 2 ^ 32 := by
    rw [UInt64.toNat_shiftRight, Nat.shiftRight_eq_div_pow]
    rfl
  refine eq_ofInt ?_
  rw [Arithmetic.highWord, UInt64.toNat_toUInt32, hshift]
  omega

/-- Two words as one integer. -/
theorem long_eq (high low : UInt32) :
    Arithmetic.long high low = UInt64.ofInt (2 ^ 32 * high.toNat + low.toNat) := by
  have hhigh := high.toNat_lt
  have hlow := low.toNat_lt
  have hupper : (high.toUInt64 <<< 32).toNat = high.toNat <<< 32 := by
    have : high.toNat * 2 ^ 32 < 2 ^ 64 := by omega
    rw [UInt64.toNat_shiftLeft, UInt32.toNat_toUInt64]
    show high.toNat <<< 32 % 2 ^ 64 = _
    rw [Nat.shiftLeft_eq, Nat.mod_eq_of_lt this]
  refine eq_ofInt64 ?_
  rw [Arithmetic.long, UInt64.toNat_or, hupper, UInt32.toNat_toUInt64,
    ← Nat.shiftLeft_add_eq_or_of_lt hlow, Nat.shiftLeft_eq]
  omega

theorem isBit64_sign (x : UInt64) : isBit x 63 = decide (2 ^ 63 ≤ x.toNat) := by
  have hx := x.toNat_lt
  have hmask : (x &&& 0x8000000000000000).toNat = (x.toNat.testBit 63).toNat * 2 ^ 63 := by
    have hsign : (0x8000000000000000 : UInt64).toNat = 2 ^ 63 := rfl
    rw [UInt64.toNat_and, hsign, Nat.and_two_pow]
  have hzero : x &&& 0x8000000000000000 = 0 ↔ x.toNat.testBit 63 = false := by
    rw [← UInt64.toNat_inj, hmask]
    simp
  show ((x &&& 0x8000000000000000) != 0) = _
  rw [bne_eq, Bool.eq_iff_iff]
  simp only [Bool.not_eq_true', beq_eq_false_iff_ne, ne_eq, hzero, Bool.not_eq_false,
    decide_eq_true_eq, Nat.testBit_eq_decide_div_mod_eq]
  omega

end Word

/-! ## Exact products -/

namespace Arithmetic

/-- The integer that one half of a word stands for, with a sign. -/
def half (x : UInt32) (top : Bool) : ℤ :=
  (x.toBitVec.extractLsb' (if top then 16 else 0) 16).toInt

/-- Whether a signed word has room for an integer. -/
def Fits (x : ℤ) : Prop := -2 ^ 31 ≤ x ∧ x < 2 ^ 31

instance (x : ℤ) : Decidable (Fits x) := inferInstanceAs (Decidable (_ ∧ _))

/-- The nearest integer that a signed word has room for. -/
def clamp (x : ℤ) : ℤ := max (-2 ^ 31) (min x (2 ^ 31 - 1))

/-- Every product stands for the product of the integers that its factors stand for: none of them
runs out of its word on the way to the result. -/
structure ExactProducts (a b : UInt32) (xTop yTop : Bool) : Prop where
  unsigned : (unsignedProduct a b).toNat = a.toNat * b.toNat
  signed : (signedProduct a b).toInt = a.toInt32.toInt * b.toInt32.toInt
  halves : (signedHalf a xTop * signedHalf b yTop).toInt32.toInt = half a xTop * half b yTop
  mixed : (signedProduct a (signedHalf b yTop)).toInt = a.toInt32.toInt * half b yTop
  upper : (signedProduct a (signedHalf b yTop) >>> 16).toInt32.toInt =
    a.toInt32.toInt * half b yTop / 2 ^ 16

section
variable (a b : UInt32) (xTop yTop top : Bool)

theorem toInt_signedHalf : (signedHalf a top).toInt32.toInt = half a top := by
  have hextend : ∀ x : UInt32, (signExtend16 x).toInt32.toInt = x.toUInt16.toInt16.toInt :=
    fun x => Int16.toInt_toInt32 x.toUInt16.toInt16
  have hshift : (a >>> 16).toUInt16.toBitVec = a.toBitVec.extractLsb' 16 16 := by
    rw [← BitVec.toNat_inj, BitVec.extractLsb'_toNat]
    show (a >>> 16).toUInt16.toNat = _
    rw [UInt32.toNat_toUInt16, UInt32.toNat_shiftRight]
    rfl
  have hlow : a.toUInt16.toBitVec = a.toBitVec.extractLsb' 0 16 := by
    rw [← BitVec.toNat_inj, BitVec.extractLsb'_toNat]
    rfl
  unfold signedHalf half
  rw [hextend]
  cases top with
  | true => exact congrArg BitVec.toInt hshift
  | false => exact congrArg BitVec.toInt hlow

theorem half_bounds : -2 ^ 15 ≤ half a top ∧ half a top < 2 ^ 15 :=
  ⟨BitVec.le_toInt _, BitVec.toInt_lt⟩

theorem fits_toInt32 : Fits a.toInt32.toInt := by
  have ha := toInt32_cases a
  unfold Fits
  omega

/-- A product is bounded by the product of the bounds of its factors. -/
theorem mul_bounds {x y : ℤ} {m n : ℕ} (hx : -2 ^ m ≤ x ∧ x < 2 ^ m)
    (hy : -2 ^ n ≤ y ∧ y < 2 ^ n) :
    -2 ^ (m + n) ≤ x * y ∧ x * y ≤ 2 ^ (m + n) := by
  have habs : |x * y| ≤ 2 ^ m * 2 ^ n := by
    rw [abs_mul]
    exact mul_le_mul (abs_le.mpr ⟨hx.1, hx.2.le⟩) (abs_le.mpr ⟨hy.1, hy.2.le⟩) (abs_nonneg y)
      (by positivity)
  rw [pow_add]
  exact abs_le.mp habs

theorem toInt_signedProduct :
    (signedProduct a b).toInt = a.toInt32.toInt * b.toInt32.toInt := by
  obtain ⟨hlow, hhigh⟩ := mul_bounds (fits_toInt32 a) (fits_toInt32 b)
  rw [signedProduct, Int64.toInt_mul, Int32.toInt_toInt64, Int32.toInt_toInt64]
  exact Int.bmod_eq_of_le (by omega) (by omega)

/-- A shift to the right rounds down. -/
theorem toInt_shiftRight_sixteen (x : Int64) : (x >>> 16).toInt = x.toInt / 2 ^ 16 := by
  have hshift : (x >>> 16).toBitVec = x.toBitVec.sshiftRight 16 := by
    rw [Int64.toBitVec_shiftRight]
    rfl
  show (x >>> 16).toBitVec.toInt = _
  rw [hshift, BitVec.toInt_sshiftRight, Int.shiftRight_eq_div_pow]
  rfl

theorem exactProducts : ExactProducts a b xTop yTop where
  unsigned := by
    have hlt : a.toNat * b.toNat < 2 ^ 32 * 2 ^ 32 := Nat.mul_lt_mul'' a.toNat_lt b.toNat_lt
    rw [unsignedProduct, UInt64.toNat_mul, UInt32.toNat_toUInt64, UInt32.toNat_toUInt64]
    exact Nat.mod_eq_of_lt (by omega)
  signed := toInt_signedProduct a b
  halves := by
    obtain ⟨hlow, hhigh⟩ := mul_bounds (half_bounds a xTop) (half_bounds b yTop)
    rw [UInt32.toInt32_mul, Int32.toInt_mul, toInt_signedHalf, toInt_signedHalf]
    exact Int.bmod_eq_of_le (by omega) (by omega)
  mixed := by rw [toInt_signedProduct, toInt_signedHalf]
  upper := by
    obtain ⟨hlow, hhigh⟩ := mul_bounds (fits_toInt32 a) (half_bounds b yTop)
    rw [Int64.toInt_toInt32, toInt_shiftRight_sixteen, toInt_signedProduct, toInt_signedHalf]
    exact Int.bmod_eq_of_le (by omega) (by omega)

end

/-! ## Saturation -/

theorem toInt_signedLimit (a : UInt32) :
    (signedLimit a).toInt32.toInt = if a.toInt32.toInt < 0 then -2 ^ 31 else 2 ^ 31 - 1 := by
  rw [signedLimit, isBit_sign_eq_neg]
  by_cases hneg : a.toInt32.toInt < 0
  · rw [decide_eq_true hneg, if_pos hneg]
    rfl
  · rw [decide_eq_false hneg, if_neg hneg]
    rfl

/-- A step that puts out the end of the range that an integer runs past, and says if it does. -/
structure Saturates (step : UInt32 × Bool) (x : ℤ) : Prop where
  value : step.1.toInt32.toInt = clamp x
  out : step.2 = decide (¬ Fits x)

theorem clamp_of_fits {x : ℤ} (h : Fits x) : clamp x = x := by
  unfold Fits at h
  unfold clamp
  omega

/-- A word by itself never runs past an end. -/
theorem saturates_plain (a : UInt32) : Saturates (a, false) a.toInt32.toInt where
  value := (clamp_of_fits (fits_toInt32 a)).symm
  out := (decide_eq_false (not_not_intro (fits_toInt32 a))).symm

/-- A sum that does not fit is replaced by the end of the range on its own side, which is where its
first operand is, too. -/
theorem saturates_of_exact {s : Sum32} {a : UInt32} {unsigned signed : ℤ} {carry : Prop}
    (hs : s.Exact unsigned signed carry) (hsame : unsigned % 2 ^ 32 = signed % 2 ^ 32)
    (hbelow : signed < -2 ^ 31 → a.toInt32.toInt < 0)
    (habove : 2 ^ 31 ≤ signed → 0 ≤ a.toInt32.toInt) :
    Saturates (if s.overflow then signedLimit a else s.value, s.overflow) signed := by
  have hfits : s.overflow = true ↔ ¬ Fits signed := by
    rw [hs.overflow, Fits]
    omega
  refine ⟨?_, Bool.eq_iff_iff.mpr (hfits.trans decide_eq_true_iff.symm)⟩
  show (if s.overflow then signedLimit a else s.value).toInt32.toInt = clamp signed
  -- A difference or a sum can only leave the range on the side of its first operand.
  by_cases hout : s.overflow = true
  · have hside := hs.overflow.mp hout
    rw [if_pos hout, toInt_signedLimit]
    unfold clamp
    split <;> omega
  · have hin : Fits signed := by rwa [hfits, not_not] at hout
    have hvalue := hs.value
    have hcases := toInt32_cases s.value
    rw [if_neg hout, clamp_of_fits hin]
    unfold Fits at hin
    omega

theorem saturates_add (a b : UInt32) :
    Saturates (saturatingAdd a b) (a.toInt32.toInt + b.toInt32.toInt) := by
  have ha := toInt32_cases a
  have hb := toInt32_cases b
  exact saturates_of_exact (exact_add a b) (by omega) (by omega) (by omega)

theorem saturates_sub (a b : UInt32) :
    Saturates (saturatingSub a b) (a.toInt32.toInt - b.toInt32.toInt) := by
  have ha := toInt32_cases a
  have hb := toInt32_cases b
  exact saturates_of_exact (exact_sub a b) (by omega) (by omega) (by omega)

/-! ## Flags of products -/

theorem isBit64_ofInt (x : ℤ) :
    isBit (UInt64.ofInt x) 63 = decide (2 ^ 64 / 2 ≤ x % 2 ^ 64) := by
  have hx := toNat_ofInt64 x
  rw [isBit64_sign, decide_eq_decide]
  omega

theorem ofInt64_eq_zero (x : ℤ) : (UInt64.ofInt x == 0) = decide (x % 2 ^ 64 = 0) := by
  have hx := toNat_ofInt64 x
  rw [Bool.eq_iff_iff, beq_iff_eq, decide_eq_true_iff, ← UInt64.toNat_inj]
  show _ = 0 ↔ _
  omega

/-- The two flags of a product are set one after the other. -/
theorem withNZ_eq_withFlags (status value : UInt32) :
    withNZ status value =
      withFlags status [(.negative, isBit value 31), (.zero, decide (value = 0))] := by
  refine ext_isBit fun i hi => ?_
  rw [isBit_withNZ _ _ hi]
  simp only [withFlags, List.foldl_cons, List.foldl_nil, Flag.position]
  rw [isBit_setBit _ _ (by decide) hi, isBit_setBit _ _ (by decide) hi]
  split_ifs <;> first | rfl | omega

theorem withNZ_ofInt (status : UInt32) (x : ℤ) :
    withNZ status (UInt32.ofInt x) = withFlags status
      [(.negative, decide (2 ^ 32 / 2 ≤ x % 2 ^ 32)), (.zero, decide (x % 2 ^ 32 = 0))] := by
  have hx := toNat_ofInt x
  have hzero : UInt32.ofInt x = 0 ↔ x % 2 ^ 32 = 0 := by
    rw [← UInt32.toNat_inj]
    show _ = 0 ↔ _
    omega
  have hsign : 2 ^ 31 ≤ (UInt32.ofInt x).toNat ↔ 2 ^ 32 / 2 ≤ x % 2 ^ 32 := by omega
  rw [withNZ_eq_withFlags, isBit_sign, decide_eq_decide.mpr hzero, decide_eq_decide.mpr hsign]

end Arithmetic

/-! ## What the instructions leave behind -/

namespace Arm

open Arithmetic

/-- Whether a product fills two registers. -/
def MulOp.isLong (op : MulOp) : Bool := op matches umull | umlal | smull | smlal

/-- The product of two registers, with what the destination holds added where the operation
accumulates. A long product has its lower half in `n` and its upper half in `d`. -/
def multiplyExact (s : CpuState) (op : MulOp) (d n r m : Register) : ℤ :=
  let factor (r : Register) : ℤ :=
    if op.isUnsigned then (s.reg r).toNat else (s.reg r).toInt32.toInt
  let old : ℤ :=
    if op.isLong then 2 ^ 32 * (s.reg d).toNat + (s.reg n).toNat else (s.reg n).toNat
  factor m * factor r + if op.accumulates then old else 0

/-- A product with its flags. -/
def multiplyOutcome (isV5 : Bool) (s : CpuState) (op : MulOp) (setFlags : Bool)
    (d n r m : Register) : Outcome :=
  let exact := multiplyExact s op d n r m
  let range : ℤ := if op.isLong then 2 ^ 64 else 2 ^ 32
  { results := if op.isLong then [(n, exact), (d, exact / 2 ^ 32)] else [(d, exact)]
    flags :=
      if setFlags then
        [(.negative, decide (range / 2 ≤ exact % range)), (.zero, decide (exact % range = 0))] ++
          if isV5 then [] else [(.carry, false)]
      else [] }

/-- The saturation flag, unless everything had room; it is never cleared. -/
def markUnless (fits : Bool) : List (Flag × Bool) := if fits then [] else [(.saturated, true)]

/-- The product of halves, or of a word and a half without its lowest 16 bits. -/
def halfMultiplyOutcome (s : CpuState) (op : HalfMulOp) (d n r m : Register)
    (xTop yTop : Bool) : Outcome :=
  let y := half (s.reg r) yTop
  let halves := half (s.reg m) xTop * y
  let upper := (s.reg m).toInt32.toInt * y / 2 ^ 16
  let accumulator := (s.reg n).toInt32.toInt
  match op with
  | .smul => { results := [(d, halves)], flags := [] }
  | .smulw => { results := [(d, upper)], flags := [] }
  | .smla =>
    { results := [(d, halves + accumulator)], flags := markUnless (Fits (halves + accumulator)) }
  | .smlaw =>
    { results := [(d, upper + accumulator)], flags := markUnless (Fits (upper + accumulator)) }
  | .smlal =>
    let exact := halves + (2 ^ 32 * (s.reg d).toNat + (s.reg n).toNat)
    { results := [(n, exact), (d, exact / 2 ^ 32)], flags := [] }

/-- The sum or difference of two registers, the second doubled first where the operation says so.
Both steps stay at the ends of the range. -/
def saturatingOutcome (s : CpuState) (op : SaturatingOp) (d n m : Register) : Outcome :=
  let a := (s.reg m).toInt32.toInt
  let b := (s.reg n).toInt32.toInt
  let second := if op matches .doubleAdd | .doubleSub then 2 * b else b
  let exact := if op matches .add | .doubleAdd then a + clamp second else a - clamp second
  { results := [(d, clamp exact)], flags := markUnless (Fits second ∧ Fits exact) }

/-- What a multiplication or a saturating operation leaves behind in a state. -/
def Instruction.product? (isV5 : Bool) (s : CpuState) : Instruction → Option Outcome
  | .multiply op setFlags d n r m => some (multiplyOutcome isV5 s op setFlags d n r m)
  | .halfMultiply op d n r m xTop yTop => some (halfMultiplyOutcome s op d n r m xTop yTop)
  | .saturating op d n m => some (saturatingOutcome s op d n m)
  | _ => none

end Arm

/-! ## The instructions -/

namespace Core

open MachineM Arithmetic Arm

variable {σ : Type} {core : Core σ} {d n r m : Register} (machine : Machine σ)

/-! ### Products of words -/

theorem executeMultiply_short {op : MulOp} (hop : op.isLong = false) (setFlags : Bool)
    (hd : d ≠ Register.pc) :
    (core.executeMultiply op setFlags d n r m machine).2.toBoard =
      { machine.toBoard with
        cpu := { machine.cpu.withOutcome
            (multiplyOutcome core.processor.isV5 machine.cpu op setFlags d n r m) with
          accessType := Access.nonSequential } } := by
  let s := machine.cpu
  let product := s.reg m * s.reg r
  let value := if op.accumulates then product + s.reg n else product
  have hproduct :
      product = UInt32.ofInt ((s.reg m).toInt32.toInt * (s.reg r).toInt32.toInt) := by
    rw [UInt32.ofInt_mul, ofInt_toInt32, ofInt_toInt32]
  have hsum (x : ℤ) : UInt32.ofInt (x + (s.reg n).toNat) = UInt32.ofInt x + s.reg n := by
    rw [UInt32.ofInt_add, ofInt_toNat]
  have hvalue : value = UInt32.ofInt (multiplyExact s op d n r m) := by
    cases op <;> cases hop
    case mul => exact hproduct.trans (congrArg UInt32.ofInt (add_zero _).symm)
    case mla => exact (congrArg (· + s.reg n) hproduct).trans (hsum _).symm
  -- The carry of the old version is cleared last, after the register is written.
  let flagged := if setFlags then { s with cpsr := withNZ s.cpsr value } else s
  let written := flagged.setReg d value
  have hafter : (core.executeMultiply op setFlags d n r m machine).2.toBoard =
      { machine.toBoard with
        cpu := { (if setFlags && !core.processor.isV5 then written.setFlag .carry false
            else written) with
          accessType := Access.nonSequential } } := by
    unfold executeMultiply
    simp only [core.setReg_of_ne_pc hd]
    generalize core.processor.isV5 = isV5
    cases op <;> cases hop <;> cases setFlags <;> cases isV5 <;> rfl
  rw [hafter]
  simp only [written, flagged, hvalue, withNZ_ofInt]
  generalize core.processor.isV5 = isV5
  cases op <;> cases hop <;> cases setFlags <;> cases isV5 <;> rfl

theorem longProduct_exact (s : CpuState) {op : MulOp} (hop : op.isLong = true) :
    longProduct op (s.reg m) (s.reg r) (long (s.reg d) (s.reg n)) =
      UInt64.ofInt (multiplyExact s op d n r m) := by
  have hunsigned (a b : UInt32) :
      unsignedProduct a b = UInt64.ofInt (a.toNat * b.toNat) := by
    have hlt := (unsignedProduct a b).toNat_lt
    have hproduct := (exactProducts a b false false).unsigned
    refine eq_ofInt64 ?_
    push_cast [← hproduct]
    omega
  have hsigned (a b : UInt32) :
      (signedProduct a b).toUInt64 = UInt64.ofInt (a.toInt32.toInt * b.toInt32.toInt) := by
    rw [← toInt_signedProduct]
    exact (ofInt_toInt64 _).symm
  cases op <;> cases hop <;>
    simp [longProduct, multiplyExact, MulOp.accumulates, MulOp.isUnsigned, MulOp.isLong,
      UInt64.ofInt_add, long_eq, hunsigned, hsigned]

theorem executeMultiply_long {op : MulOp} (hop : op.isLong = true) (setFlags : Bool)
    (hd : d ≠ Register.pc) (hn : n ≠ Register.pc) :
    (core.executeMultiply op setFlags d n r m machine).2.toBoard =
      { machine.toBoard with
        cpu := { machine.cpu.withOutcome
            (multiplyOutcome core.processor.isV5 machine.cpu op setFlags d n r m) with
          accessType := Access.nonSequential } } := by
  let s := machine.cpu
  let value := longProduct op (s.reg m) (s.reg r) (long (s.reg d) (s.reg n))
  have hvalue : value = UInt64.ofInt (multiplyExact s op d n r m) := longProduct_exact s hop
  let flagged :=
    if setFlags then (s.setFlag .negative (isBit value 63)).setFlag .zero (value == 0) else s
  let written := (flagged.setReg n value.toUInt32).setReg d (highWord value)
  have hafter : (core.executeMultiply op setFlags d n r m machine).2.toBoard =
      { machine.toBoard with
        cpu := { (if setFlags && !core.processor.isV5 then written.setFlag .carry false
            else written) with
          accessType := Access.nonSequential } } := by
    unfold executeMultiply
    simp only [core.setReg_of_ne_pc hd, core.setReg_of_ne_pc hn]
    generalize core.processor.isV5 = isV5
    cases op <;> cases hop <;> cases setFlags <;> cases isV5 <;> rfl
  rw [hafter]
  simp only [written, flagged, hvalue, isBit64_ofInt, ofInt64_eq_zero, toUInt32_ofInt64,
    highWord_ofInt64]
  generalize core.processor.isV5 = isV5
  cases op <;> cases hop <;> cases setFlags <;> cases isV5 <;> rfl

/-! ### Products of halves -/

/-- A result that is written after the saturation flag. -/
theorem saturatingWrite_exact {out fits : Bool} {value : UInt32} {x : ℤ} (hd : d ≠ Register.pc)
    (hout : out = !fits) (hvalue : value = UInt32.ofInt x) :
    ((do markSaturated out; core.setReg d value : MachineM σ Unit) machine).2.toBoard =
      { machine.toBoard with
        cpu := machine.cpu.withOutcome { results := [(d, x)], flags := markUnless fits } } := by
  rw [core.setReg_of_ne_pc hd, hout, hvalue]
  cases fits <;> rfl

/-- A product with a word added, which tells whether the sum fits. -/
theorem accumulate_exact {product : UInt32} {x : ℤ} (hd : d ≠ Register.pc)
    (hproduct : product.toInt32.toInt = x) (accumulator : UInt32) :
    let exact := x + accumulator.toInt32.toInt
    ((do
        markSaturated (add product accumulator).overflow
        core.setReg d (add product accumulator).value : MachineM σ Unit) machine).2.toBoard =
      { machine.toBoard with
        cpu := machine.cpu.withOutcome
          { results := [(d, exact)], flags := markUnless (Fits exact) } } := by
  intro exact
  have hexact : exact = product.toInt32.toInt + accumulator.toInt32.toInt := by rw [hproduct]
  refine saturatingWrite_exact machine hd ?_ ?_
  · rw [hexact, ← decide_not]
    exact (saturates_add product accumulator).out
  · rw [hexact, UInt32.ofInt_add, ofInt_toInt32, ofInt_toInt32]
    rfl

/-- A product that is written as it is. -/
theorem write_exact {value : UInt32} {x : ℤ} (hd : d ≠ Register.pc)
    (hvalue : value.toInt32.toInt = x) :
    (core.setReg d value machine).2.toBoard =
      { machine.toBoard with
        cpu := machine.cpu.withOutcome { results := [(d, x)], flags := [] } } := by
  rw [core.setReg_of_ne_pc hd, eq_ofInt_of_toInt hvalue]
  rfl

theorem executeHalfMultiply_exact (op : HalfMulOp) (xTop yTop : Bool) (hd : d ≠ Register.pc)
    (hn : op = .smlal → n ≠ Register.pc) :
    (core.executeHalfMultiply op d n r m xTop yTop machine).2.toBoard =
      { machine.toBoard with
        cpu := machine.cpu.withOutcome
          (halfMultiplyOutcome machine.cpu op d n r m xTop yTop) } := by
  let s := machine.cpu
  have hproducts := exactProducts (s.reg m) (s.reg r) xTop yTop
  cases op with
  | smul => exact write_exact machine hd hproducts.halves
  | smulw => exact write_exact machine hd hproducts.upper
  | smla => exact accumulate_exact machine hd hproducts.halves (s.reg n)
  | smlaw => exact accumulate_exact machine hd hproducts.upper (s.reg n)
  | smlal =>
    let exact := half (s.reg m) xTop * half (s.reg r) yTop
    let product := (signedHalf (s.reg m) xTop * signedHalf (s.reg r) yTop).toInt32.toInt64
    let value := long (s.reg d) (s.reg n) + product.toUInt64
    have hproduct : product.toUInt64 = UInt64.ofInt exact := by
      rw [← ofInt_toInt64 product.toUInt64]
      exact congrArg UInt64.ofInt ((Int32.toInt_toInt64 _).trans hproducts.halves)
    have hvalue : value =
        UInt64.ofInt (exact + (2 ^ 32 * (s.reg d).toNat + (s.reg n).toNat)) := by
      rw [add_comm exact, UInt64.ofInt_add, ← long_eq, ← hproduct]
    -- Both halves of the accumulator are read before either is written.
    have hafter : (core.executeHalfMultiply .smlal d n r m xTop yTop machine).2.toBoard =
        { machine.toBoard with
          cpu := (s.setReg n value.toUInt32).setReg d (highWord value) } := by
      unfold executeHalfMultiply
      simp only [core.setReg_of_ne_pc hd, core.setReg_of_ne_pc (hn rfl)]
      rfl
    rw [hafter, hvalue, toUInt32_ofInt64, highWord_ofInt64]
    rfl

/-! ### Saturating sums -/

/-- Two steps, of which each may mark that it runs past an end, and the second gives the result. -/
theorem saturatingSteps_exact {first second : UInt32 × Bool} {x y : ℤ} (hd : d ≠ Register.pc)
    (hfirst : Saturates first x) (hsecond : Saturates second y) :
    ((do
        markSaturated (first.2 || second.2)
        core.setReg d second.1 : MachineM σ Unit) machine).2.toBoard =
      { machine.toBoard with
        cpu := machine.cpu.withOutcome
          { results := [(d, clamp y)], flags := markUnless (Fits x ∧ Fits y) } } := by
  refine saturatingWrite_exact machine hd ?_ (eq_ofInt_of_toInt hsecond.value)
  rw [hfirst.out, hsecond.out, Bool.decide_and, Bool.not_and, decide_not, decide_not]

theorem executeSaturating_exact (op : SaturatingOp) (hd : d ≠ Register.pc) :
    (core.executeSaturating op d n m machine).2.toBoard =
      { machine.toBoard with
        cpu := machine.cpu.withOutcome (saturatingOutcome machine.cpu op d n m) } := by
  let a := machine.cpu.reg m
  let b := machine.cpu.reg n
  have hplain := saturates_plain b
  have hdouble : Saturates (saturatingAdd b b) (2 * b.toInt32.toInt) := by
    rw [two_mul]
    exact saturates_add b b
  have hadd {step : UInt32 × Bool} {x : ℤ} (h : Saturates step x) :
      Saturates (saturatingAdd a step.1) (a.toInt32.toInt + clamp x) := by
    rw [← h.value]
    exact saturates_add a step.1
  have hsub {step : UInt32 × Bool} {x : ℤ} (h : Saturates step x) :
      Saturates (saturatingSub a step.1) (a.toInt32.toInt - clamp x) := by
    rw [← h.value]
    exact saturates_sub a step.1
  cases op with
  | add => exact saturatingSteps_exact machine hd hplain (hadd hplain)
  | sub => exact saturatingSteps_exact machine hd hplain (hsub hplain)
  | doubleAdd => exact saturatingSteps_exact machine hd hdouble (hadd hdouble)
  | doubleSub => exact saturatingSteps_exact machine hd hdouble (hsub hdouble)

/-! ### All of them -/

theorem runArm_product (word : UInt32) {i : Instruction} {o : Outcome}
    (hproduct : i.product? core.processor.isV5 machine.cpu = some o)
    (hpc : Register.pc ∉ o.results.map Prod.fst) :
    ∃ access, (core.runArm word i machine).2.toBoard =
      { machine.toBoard with
        cpu := { machine.cpu.withOutcome o with accessType := access } } := by
  have hkept (o : Outcome) (h : (core.runArm word i machine).2.toBoard =
      { machine.toBoard with cpu := machine.cpu.withOutcome o }) :
      ∃ access, (core.runArm word i machine).2.toBoard =
        { machine.toBoard with
          cpu := { machine.cpu.withOutcome o with accessType := access } } :=
    ⟨(machine.cpu.withOutcome o).accessType, h⟩
  cases i <;> cases hproduct
  case multiply.refl op setFlags d n r m =>
    refine ⟨Access.nonSequential, ?_⟩
    cases hop : op.isLong with
    | false =>
      have hd : d ≠ Register.pc := by
        rintro rfl
        simp [multiplyOutcome, hop] at hpc
      exact executeMultiply_short machine hop setFlags hd
    | true =>
      have hdests : Register.pc ≠ n ∧ Register.pc ≠ d := by
        simpa [multiplyOutcome, hop] using hpc
      exact executeMultiply_long machine hop setFlags hdests.2.symm hdests.1.symm
  case halfMultiply.refl op d n r m xTop yTop =>
    have hd : d ≠ Register.pc := by
      rintro rfl
      cases op <;> simp [halfMultiplyOutcome] at hpc
    have hn : op = .smlal → n ≠ Register.pc := by
      rintro rfl rfl
      simp [halfMultiplyOutcome] at hpc
    refine hkept (halfMultiplyOutcome machine.cpu op d n r m xTop yTop) ?_
    exact executeHalfMultiply_exact machine op xTop yTop hd hn
  case saturating.refl op d n m =>
    have hd : d ≠ Register.pc := fun h => hpc (List.mem_singleton.mpr h.symm)
    refine hkept (saturatingOutcome machine.cpu op d n m) ?_
    exact executeSaturating_exact machine op hd

/-- **Products and saturating sums are exact.** A multiplication or a saturating sum whose results
do not go to the program counter leaves in its registers the integers that its operands before it
give, as far as the registers have room, sets the flags that its outcome lists, and changes nothing
else in the state of the processor but the kind of the next access, nor anything around it. A word
that decodes to it does so if its condition holds. None of the products that it computes on the way
runs out of its word. -/
theorem products_exact (core : Core σ) (machine : Machine σ) (word : UInt32) {i : Instruction}
    {o : Outcome} (hproduct : i.product? core.processor.isV5 machine.cpu = some o)
    (hpc : Register.pc ∉ o.results.map Prod.fst) :
    let after := (core.runArm word i machine).2
    after.toBoard = { machine.toBoard with
      cpu := { machine.cpu.withOutcome o with accessType := after.cpu.accessType } } ∧
    (Arm.decode core.processor.isV5 word = i → machine.cpu.holds (condition word) = true →
      core.executeArm word machine = ((), after)) ∧
    ∀ (a b : UInt32) (xTop yTop : Bool), ExactProducts a b xTop yTop := by
  intro after
  refine ⟨?_, ?_, exactProducts⟩
  · obtain ⟨access, hafter⟩ := runArm_product machine word hproduct hpc
    have haccess : after.cpu.accessType = access := congrArg (·.cpu.accessType) hafter
    rw [haccess]
    exact hafter
  · intro hdecode hholds
    rw [core.executeArm_of_holds hholds, hdecode]
    rfl

/-- A processor about to multiply the least half by itself and to add the greatest word. -/
def beforeProduct : Machine FlatMemory where
  cpu := ((({} : CpuState).setReg 1 0x7FFFFFFF).setReg 2 0x8000).setReg 3 0x8000
  system := {}
  log := {}

/-- The product fits, its sum with the accumulator does not. -/
theorem products_exact_least :
    let after := ((FlatMemory.minimalCore .arm9).executeArm 0xE1001283 beforeProduct).2.cpu
    after.reg 0 = 0xBFFFFFFF ∧ after.cpsr = 0x080000D3 := by
  intro after
  have hafter := (FlatMemory.minimalCore .arm9).products_exact beforeProduct 0xE1001283
    (i := .halfMultiply .smla 0 1 2 3 false false) rfl (by decide)
  have hexecute := hafter.2.1 (by decide) (by decide)
  have hcpu := congrArg Board.cpu hafter.1
  refine ⟨?_, ?_⟩
  · show ((FlatMemory.minimalCore .arm9).executeArm 0xE1001283 beforeProduct).2.cpu.reg 0 = _
    rw [hexecute]
    exact (congrArg (CpuState.reg · 0) hcpu).trans (by decide)
  · show ((FlatMemory.minimalCore .arm9).executeArm 0xE1001283 beforeProduct).2.cpu.cpsr = _
    rw [hexecute]
    exact (congrArg CpuState.cpsr hcpu).trans (by decide)

end Core
end Handheld
