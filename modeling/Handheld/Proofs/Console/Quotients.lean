import Mathlib
import Handheld.Console.Firmware.Call
import Handheld.Proofs.Console.Registers

/-!
# What the math units compute

The operands that the mode selects are read as signed integers, and the result registers compared
with the quotient of these integers, rounded toward zero: `Divider.computed_update`. What a
division has no quotient for is told apart, and no such case ever reaches the machine's division:
`Divider.update?_eq`. The root is `SquareRoot.computed_update`.

The firmware divides numbers of 32 bits on its own. It agrees with the divider in every case,
`Firmware.divide_eq`.
-/

namespace Handheld.Console

open Word

/-! ## Signed readings -/

theorem toInt_low (x : UInt64) : x.toUInt32.toInt32.toInt = (x.toNat : Int).bmod (2 ^ 32) := by
  have hlow : x.toUInt32.toBitVec.toNat = x.toNat % 2 ^ 32 := UInt64.toNat_toUInt32 x
  show x.toUInt32.toBitVec.toInt = _
  rw [BitVec.toInt_eq_toNat_bmod, hlow, Int.natCast_mod, Int.emod_bmod]

theorem toInt_whole (x : UInt64) : x.toInt64.toInt = (x.toNat : Int).bmod (2 ^ 64) :=
  BitVec.toInt_eq_toNat_bmod x.toBitVec

/-- A signed number that was extended to 64 bits reads the same. -/
theorem toInt_extended (x : Int32) : x.toInt64.toUInt64.toInt64.toInt = x.toInt := by
  rw [Int64.toInt64_toUInt64, Int32.toInt_toInt64]

/-- The low half of a signed number that was extended to 64 bits is the number. -/
theorem low_extended (x : Int32) : x.toInt64.toUInt64.toUInt32 = x.toUInt32 := by
  rw [← UInt32.toBitVec_inj]
  show (x.toInt64.toBitVec).setWidth 32 = x.toBitVec
  rw [Int32.toBitVec_toInt64]
  refine BitVec.eq_of_getElem_eq fun i hi => ?_
  rw [BitVec.getElem_setWidth, BitVec.getLsbD_signExtend]
  simp [hi, Nat.lt_trans hi (by decide : 32 < 64)]

/-- Quotient and remainder as the divider gives them for numerators of some width. An exact
quotient out of range is only that of the least numerator by -1. -/
structure Divides (bits : Nat) (n d : Int) (quotient remainder : UInt64) : Prop where
  exact (hd : d ≠ 0) (hrange : ¬ (n = -2 ^ (bits - 1) ∧ d = -1)) :
    quotient.toInt64.toInt = n.tdiv d ∧ remainder.toInt64.toInt = n - d * n.tdiv d
  outOfRange (hn : n = -2 ^ (bits - 1)) (hd : d = -1) :
    quotient.toNat = 2 ^ (bits - 1) ∧ remainder = 0
  byZero (hd : d = 0) :
    quotient = (if n < 0 then 1 else -1) ^^^ (if bits = 32 then 0xFFFFFFFF00000000 else 0) ∧
      remainder.toInt64.toInt = n

/-- Division of a machine that wraps a quotient out of range and traps on a zero divisor. -/
def wrappingDivision {α : Type} [DecidableEq α] [Zero α] [Div α] [Mod α] (n d : α) :
    Option (α × α) :=
  if d = 0 then none else some (n / d, n % d)

/-- Division of a machine that traps on a quotient out of range, too. -/
def trappingDivision (n d : Int32) : Option (Int32 × Int32) :=
  if n = Int32.minValue ∧ d = -1 then none else wrappingDivision n d

namespace Divider

/-! ## Division of one width -/

theorem divides_divide32 (n d : Int32) :
    Divides 32 n.toInt d.toInt (divide32 n d).1 (divide32 n d).2 := by
  have hzero : d = 0 ↔ d.toInt = 0 := Int32.toInt_inj.symm
  have hover : n = Int32.minValue ∧ d = -1 ↔ n.toInt = -2 ^ 31 ∧ d.toInt = -1 :=
    and_congr Int32.toInt_inj.symm Int32.toInt_inj.symm
  refine ⟨fun hd hrange => ?_, fun hn hd => ?_, fun hd => ?_⟩
  · have hquotient : (n / d).toInt = n.toInt.tdiv d.toInt := by
      rcases not_and_or.mp (mt hover.mp hrange) with hn | hminus
      · exact Int32.toInt_div_of_ne_left n d hn
      · exact Int32.toInt_div_of_ne_right n d hminus
    unfold divide32
    rw [if_neg (mt hzero.mp hd), if_neg (mt hover.mp hrange), toInt_extended, toInt_extended,
      hquotient, Int32.toInt_mod, Int.tmod_def]
    exact ⟨rfl, rfl⟩
  · obtain ⟨rfl, rfl⟩ := hover.mpr ⟨hn, hd⟩
    exact ⟨rfl, rfl⟩
  · obtain rfl := hzero.mpr hd
    unfold divide32
    rw [if_pos rfl, toInt_extended]
    refine ⟨?_, rfl⟩
    have hsign : n < 0 ↔ n.toInt < 0 := Int32.lt_iff_toInt_lt
    refine (if_congr hsign rfl rfl).trans ?_
    split <;> rfl

theorem divides_divide64 (n d : Int64) :
    Divides 64 n.toInt d.toInt (divide64 n d).1 (divide64 n d).2 := by
  have hzero : d = 0 ↔ d.toInt = 0 := Int64.toInt_inj.symm
  have hover : n = Int64.minValue ∧ d = -1 ↔ n.toInt = -2 ^ 63 ∧ d.toInt = -1 :=
    and_congr Int64.toInt_inj.symm Int64.toInt_inj.symm
  refine ⟨fun hd hrange => ?_, fun hn hd => ?_, fun hd => ?_⟩
  · have hquotient : (n / d).toInt = n.toInt.tdiv d.toInt := by
      rcases not_and_or.mp (mt hover.mp hrange) with hn | hminus
      · exact Int64.toInt_div_of_ne_left n d hn
      · exact Int64.toInt_div_of_ne_right n d hminus
    unfold divide64
    rw [if_neg (mt hzero.mp hd), Int64.toInt64_toUInt64, Int64.toInt64_toUInt64, hquotient,
      Int64.toInt_mod, Int.tmod_def]
    exact ⟨rfl, rfl⟩
  · obtain ⟨rfl, rfl⟩ := hover.mpr ⟨hn, hd⟩
    exact ⟨rfl, rfl⟩
  · obtain rfl := hzero.mpr hd
    unfold divide64
    rw [if_pos rfl, Int64.toInt64_toUInt64]
    refine ⟨?_, rfl⟩
    have hsign : n < 0 ↔ n.toInt < 0 := Int64.lt_iff_toInt_lt
    refine (if_congr hsign rfl rfl).trans ?_
    split <;> rfl

/-! ## The operands that the mode selects -/

/-- How many bits of the numerator count. -/
def Mode.numeratorBits : Mode → Nat
  | bits32By32 => 32
  | bits64By32 | bits64By64 => 64

/-- How many bits of the denominator count. -/
def Mode.denominatorBits : Mode → Nat
  | bits32By32 | bits64By32 => 32
  | bits64By64 => 64

/-- The numerator that the mode selects, with its sign. -/
def selectedNumerator (u : Divider) : Int :=
  (u.numerator.toNat : Int).bmod (2 ^ u.mode.numeratorBits)

/-- The denominator that the mode selects, with its sign. -/
def selectedDenominator (u : Divider) : Int :=
  (u.denominator.toNat : Int).bmod (2 ^ u.mode.denominatorBits)

/-- The result registers hold what follows from the operands, the zero bit whether all of the
denominator is zero. -/
structure Computed (u : Divider) : Prop where
  divides : Divides u.mode.numeratorBits u.selectedNumerator u.selectedDenominator u.quotient
    u.remainder
  zeroBit : isBit u.control 14 = (u.denominator == 0)

/-- What is computed is told by the mode, the zero bit and the other registers. -/
theorem Computed.congr {u v : Divider} (h : u.Computed) (hmode : v.mode = u.mode)
    (hzero : isBit v.control 14 = isBit u.control 14) (hnumerator : v.numerator = u.numerator)
    (hdenominator : v.denominator = u.denominator) (hquotient : v.quotient = u.quotient)
    (hremainder : v.remainder = u.remainder) : v.Computed := by
  constructor
  · unfold selectedNumerator selectedDenominator
    rw [hmode, hnumerator, hdenominator, hquotient, hremainder]
    exact h.divides
  · rw [hzero, hdenominator]
    exact h.zeroBit

theorem mode_congr {u v : Divider}
    (h : ∀ i < 2, v.control.toNat.testBit i = u.control.toNat.testBit i) : v.mode = u.mode := by
  unfold mode
  rw [bits16_two, bits16_two, (and_low_eq_iff toNat_three).mpr h]

theorem computed_update (u : Divider) : u.update.Computed := by
  have hmode : u.update.mode = u.mode := by
    refine mode_congr fun i hi => ?_
    show (setBit u.control 14 _).toNat.testBit i = _
    rw [testBit_setBit16 _ _ (by decide) (by omega), if_neg (by omega)]
  constructor
  · unfold selectedNumerator selectedDenominator
    rw [hmode]
    unfold update
    cases hchosen : u.mode with
    | bits32By32 =>
      show Divides 32 ((u.numerator.toNat : Int).bmod (2 ^ 32))
        ((u.denominator.toNat : Int).bmod (2 ^ 32)) _ _
      rw [← toInt_low, ← toInt_low]
      exact divides_divide32 _ _
    | bits64By32 =>
      show Divides 64 ((u.numerator.toNat : Int).bmod (2 ^ 64))
        ((u.denominator.toNat : Int).bmod (2 ^ 32)) _ _
      rw [← toInt_whole, ← toInt_low, ← Int32.toInt_toInt64]
      exact divides_divide64 _ _
    | bits64By64 =>
      show Divides 64 ((u.numerator.toNat : Int).bmod (2 ^ 64))
        ((u.denominator.toNat : Int).bmod (2 ^ 64)) _ _
      rw [← toInt_whole, ← toInt_whole]
      exact divides_divide64 _ _
  · show isBit (setBit u.control 14 (u.denominator == 0)) 14 = _
    rw [isBit16_eq_testBit _ (by decide), testBit_setBit16 _ _ (by decide) (by decide),
      if_pos rfl]
    rfl

theorem Computed.setBusy {u : Divider} (h : u.Computed) (busy : Bool) :
    (u.setBusy busy).Computed := by
  refine h.congr (mode_congr fun i hi => ?_) ?_ rfl rfl rfl rfl
  · show (setBit u.control 15 busy).toNat.testBit i = _
    rw [testBit_setBit16 _ _ (by decide) (by omega), if_neg (by omega)]
  · show isBit (setBit u.control 15 busy) 14 = _
    rw [isBit16_eq_testBit _ (by decide), isBit16_eq_testBit _ (by decide),
      testBit_setBit16 _ _ (by decide) (by decide), if_neg (by decide)]

/-! ## No trap -/

/-- `divide32` on a machine that traps. -/
def divide32? (n d : Int32) : Option (UInt64 × UInt64) :=
  if d = 0 then
    some (if n < 0 then 0xFFFFFFFF00000001 else 0xFFFFFFFF, n.toInt64.toUInt64)
  else if n = Int32.minValue ∧ d = -1 then some (0x80000000, 0)
  else (trappingDivision n d).map fun (q, r) => (q.toInt64.toUInt64, r.toInt64.toUInt64)

/-- `divide64` on a machine that traps. -/
def divide64? (n d : Int64) : Option (UInt64 × UInt64) :=
  if d = 0 then some (if n < 0 then 1 else 0xFFFFFFFFFFFFFFFF, n.toUInt64)
  else (wrappingDivision n d).map fun (q, r) => (q.toUInt64, r.toUInt64)

/-- `update` on a machine that traps. -/
def update? (u : Divider) : Option Divider := do
  let (quotient, remainder) ←
    match u.mode with
    | .bits32By32 => divide32? u.numerator.toUInt32.toInt32 u.denominator.toUInt32.toInt32
    | .bits64By32 => divide64? u.numerator.toInt64 u.denominator.toUInt32.toInt32.toInt64
    | .bits64By64 => divide64? u.numerator.toInt64 u.denominator.toInt64
  return { u with control := setBit u.control 14 (u.denominator == 0), quotient, remainder }

theorem divide32?_eq (n d : Int32) : divide32? n d = some (divide32 n d) := by
  unfold divide32? divide32
  by_cases hd : d = 0
  · rw [if_pos hd, if_pos hd]
  · by_cases hrange : n = Int32.minValue ∧ d = -1
    · rw [if_neg hd, if_neg hd, if_pos hrange, if_pos hrange]
    · rw [if_neg hd, if_neg hd, if_neg hrange, if_neg hrange, trappingDivision,
        if_neg hrange, wrappingDivision, if_neg hd]
      rfl

theorem divide64?_eq (n d : Int64) : divide64? n d = some (divide64 n d) := by
  unfold divide64? divide64
  by_cases hd : d = 0
  · rw [if_pos hd, if_pos hd]
  · rw [if_neg hd, if_neg hd, wrappingDivision, if_neg hd]
    rfl

/-- No division traps. -/
theorem update?_eq (u : Divider) : u.update? = some u.update := by
  unfold update? update
  cases u.mode <;> simp only [divide32?_eq, divide64?_eq] <;> rfl

end Divider

/-! ## Square roots -/

namespace SquareRoot

/-- The result register holds the root of the operand, rounded down. -/
def Computed (r : SquareRoot) : Prop :=
  r.result.toNat ^ 2 ≤ r.operand ∧ r.operand < (r.result.toNat + 1) ^ 2

theorem operand_lt (r : SquareRoot) : r.operand < (2 ^ 32) ^ 2 := by
  unfold operand
  split
  · exact r.input.toNat_lt
  · exact r.input.toUInt32.toNat_lt.trans (by decide)

theorem computed_update (r : SquareRoot) : r.update.Computed := by
  have hfits : r.operand.sqrt < 2 ^ 32 := Nat.sqrt_lt'.mpr r.operand_lt
  have hresult : r.update.result.toNat = r.operand.sqrt := UInt32.toNat_ofNat_of_lt' hfits
  have hoperand : r.update.operand = r.operand := rfl
  unfold Computed
  rw [hresult, hoperand]
  exact ⟨Nat.sqrt_le' _, Nat.lt_succ_sqrt' _⟩

theorem Computed.setBusy {r : SquareRoot} (h : r.Computed) (busy : Bool) :
    (r.setBusy busy).Computed := by
  have hwide : (r.setBusy busy).isWide = r.isWide := by
    show isBit (setBit r.control 15 busy) 0 = isBit r.control 0
    rw [isBit16_eq_testBit _ (by decide), isBit16_eq_testBit _ (by decide),
      testBit_setBit16 _ _ (by decide) (by decide), if_neg (by decide)]
  have hoperand : (r.setBusy busy).operand = r.operand := by
    unfold operand
    rw [hwide]
    rfl
  unfold Computed
  rw [hoperand]
  exact h

end SquareRoot

/-! ## The firmware's division -/

namespace Firmware

/-- `divide` on a machine that traps. -/
def divide? (n d : Int32) : Option (Int32 × Int32) :=
  if d = 0 then some (if n < 0 then 1 else -1, n) else wrappingDivision n d

theorem divide?_eq (n d : Int32) : divide? n d = some (divide n d) := by
  unfold divide? divide
  by_cases hd : d = 0
  · rw [if_pos hd, if_pos hd]
  · rw [if_neg hd, if_neg hd, wrappingDivision, if_neg hd]

/-- Quotient and remainder are the low halves of the divider's. -/
theorem divide_eq (n d : Int32) :
    (divide n d).1.toUInt32 = (Divider.divide32 n d).1.toUInt32 ∧
      (divide n d).2.toUInt32 = (Divider.divide32 n d).2.toUInt32 := by
  unfold divide Divider.divide32
  by_cases hd : d = 0
  · rw [if_pos hd, if_pos hd, low_extended]
    refine ⟨?_, rfl⟩
    by_cases hsign : n < 0
    · rw [if_pos hsign, if_pos hsign]
      exact (by decide : (1 : Int32).toUInt32 = (0xFFFFFFFF00000001 : UInt64).toUInt32)
    · rw [if_neg hsign, if_neg hsign]
      exact (by decide : (-1 : Int32).toUInt32 = (0xFFFFFFFF : UInt64).toUInt32)
  · rw [if_neg hd, if_neg hd]
    by_cases hrange : n = Int32.minValue ∧ d = -1
    · rw [if_pos hrange]
      obtain ⟨rfl, rfl⟩ := hrange
      exact ⟨rfl, rfl⟩
    · rw [if_neg hrange, low_extended, low_extended]
      exact ⟨rfl, rfl⟩

end Firmware
end Handheld.Console
