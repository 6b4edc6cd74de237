import Handheld.Checked
import Handheld.Cpu.Arithmetic
import Handheld.Cpu.Shifter

/-!
# Arithmetic and the barrel shifter, with checked ranges

Sums, products and shifts whose intermediate results are checked. The words themselves wrap around
where an instruction says so: what is checked is the widened sum from which a carry is told, a
product of signed numbers, and every amount of a shift.
-/

namespace Handheld

open Word

namespace Arithmetic

/-- The sum. The carry is told by the widened sum. -/
def addChecked (a b : UInt32) : Checked Sum32 := do
  let sum ← Checked.addLong a.toUInt64 b.toUInt64
  return { add a b with carry := 0xFFFFFFFF < sum }

/-- The sum of two operands and a carry. -/
def addCarryChecked (a b : UInt32) (carry : Bool) : Checked Sum32 := do
  let sum ← Checked.addLong (← Checked.addLong a.toUInt64 b.toUInt64) carry.toUInt64
  let overflow ← Checked.isBit (~~~(a ^^^ b) &&& (b ^^^ sum.toUInt32)) 31
  return { value := sum.toUInt32, carry := 0xFFFFFFFF < sum, overflow }

/-- The difference less one if there is no carry: the sum with the complement. -/
def subCarryChecked (a b : UInt32) (carry : Bool) : Checked Sum32 := addCarryChecked a (~~~b) carry

/-- The status with all four flags of a sum. -/
def withSumChecked (status : UInt32) (s : Sum32) : Checked UInt32 :=
  Checked.setBit (withNZC status s.value s.carry) 28 s.overflow

/-- The product of two signed halves. -/
def halfProductChecked (x y : UInt32) : Checked UInt32 := do
  return (← Checked.mulSigned x.toInt32 y.toInt32).toUInt32

/-- The product of a signed word and a signed half. -/
def mixedProductChecked (a y : UInt32) : Checked Int64 :=
  Checked.mulSignedLong a.toInt32.toInt64 y.toInt32.toInt64

end Arithmetic

namespace Shifter

/-- The last bit that leaves a word to the left. -/
def carryLeft (value amount : UInt32) : Checked Bool := do
  Checked.isBit value (← Checked.sub 32 amount).toNat

/-- The last bit that leaves a word to the right. -/
def carryRight (value amount : UInt32) : Checked Bool := do
  Checked.isBit value (← Checked.sub amount 1).toNat

/-- Shift left. -/
def lslChecked (value amount : UInt32) (carry : Bool) : Checked Shifted :=
  if amount = 0 then return ⟨value, carry⟩
  else if amount < 32 then
    return ⟨← Checked.shiftLeft value amount.toNat, ← carryLeft value amount⟩
  else if amount = 32 then return ⟨0, ← Checked.isBit value 0⟩
  else return ⟨0, false⟩

/-- Shift right, filling with zeros. -/
def lsrChecked (value amount : UInt32) (carry : Bool) : Checked Shifted :=
  if amount = 0 then return ⟨value, carry⟩
  else if amount < 32 then
    return ⟨← Checked.shiftRight value amount.toNat, ← carryRight value amount⟩
  else if amount = 32 then return ⟨0, ← Checked.isBit value 31⟩
  else return ⟨0, false⟩

/-- Shift right, filling with the sign. -/
def asrChecked (value amount : UInt32) (carry : Bool) : Checked Shifted :=
  if amount = 0 then return ⟨value, carry⟩
  else if amount < 32 then
    return ⟨(← Checked.shiftRightSigned value.toInt32 amount).toUInt32, ← carryRight value amount⟩
  else return ⟨(value.toInt32 >>> 31).toUInt32, ← Checked.isBit value 31⟩

/-- Rotate right. -/
def rorChecked (value amount : UInt32) (carry : Bool) : Checked Shifted :=
  if amount = 0 then return ⟨value, carry⟩
  else if amount &&& 31 = 0 then return ⟨value, ← Checked.isBit value 31⟩
  else return ⟨rotateRight value (amount &&& 31), ← carryRight value (amount &&& 31)⟩

/-- Rotate right by one through the carry. -/
def rrxChecked (value : UInt32) (carry : Bool) : Checked Shifted :=
  return ⟨← Checked.setBit (value >>> 1) 31 carry, ← Checked.isBit value 0⟩

/-- Shift by an amount given in the instruction. -/
def byImmediateChecked (kind : ShiftKind) (value amount : UInt32) (carry : Bool) :
    Checked Shifted :=
  match kind with
  | .lsl => lslChecked value amount carry
  | .lsr => lsrChecked value (if amount = 0 then 32 else amount) carry
  | .asr => asrChecked value (if amount = 0 then 32 else amount) carry
  | .ror => if amount = 0 then rrxChecked value carry else rorChecked value amount carry

/-- Shift by an amount given in a register, of which the low byte counts. -/
def byRegisterChecked (kind : ShiftKind) (value amount : UInt32) (carry : Bool) :
    Checked Shifted :=
  let amount := amount &&& 0xFF
  match kind with
  | .lsl => lslChecked value amount carry
  | .lsr => lsrChecked value amount carry
  | .asr => asrChecked value amount carry
  | .ror => rorChecked value amount carry

end Shifter
end Handheld
