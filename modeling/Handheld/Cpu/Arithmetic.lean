import Handheld.Word

/-!
# Arithmetic

Sums and differences with their flags, saturating sums, and the placement of the flags in a
status register.
-/

namespace Handheld

open Word

/-- A sum or difference with the flags it gives. -/
structure Sum32 where
  value : UInt32
  carry : Bool
  overflow : Bool
  deriving DecidableEq, Repr

namespace Arithmetic

/-- The sum. The overflow bit says that both operands have the sign that the result lacks. -/
def add (a b : UInt32) : Sum32 :=
  let value := a + b
  { value
    carry := 0xFFFFFFFF < a.toUInt64 + b.toUInt64
    overflow := isBit ((a ^^^ value) &&& (b ^^^ value)) 31 }

/-- The difference. The carry is set unless a one was borrowed. -/
def sub (a b : UInt32) : Sum32 :=
  let value := a - b
  { value
    carry := b ≤ a
    overflow := isBit ((a ^^^ b) &&& (a ^^^ value)) 31 }

/-- The sum of two operands and a carry. -/
def addCarry (a b : UInt32) (carry : Bool) : Sum32 :=
  let sum := a.toUInt64 + b.toUInt64 + carry.toUInt64
  { value := sum.toUInt32
    carry := 0xFFFFFFFF < sum
    overflow := isBit (~~~(a ^^^ b) &&& (b ^^^ sum.toUInt32)) 31 }

/-- The difference less one if there is no carry: the sum with the complement. -/
def subCarry (a b : UInt32) (carry : Bool) : Sum32 := addCarry a (~~~b) carry

/-! ## Flags -/

/-- The status with the negative and zero flags of a result. -/
def withNZ (status value : UInt32) : UInt32 :=
  (status &&& 0x3FFFFFFF) ||| (if value = 0 then 0x40000000 else 0) ||| (value &&& 0x80000000)

/-- The status with the negative and zero flags of a result and a carry. -/
def withNZC (status value : UInt32) (carry : Bool) : UInt32 :=
  (status &&& 0x1FFFFFFF) ||| (if value = 0 then 0x40000000 else 0) |||
    (value &&& 0x80000000) ||| (if carry then 0x20000000 else 0)

/-- The status with all four flags of a sum. -/
def withSum (status : UInt32) (s : Sum32) : UInt32 :=
  setBit (withNZC status s.value s.carry) 28 s.overflow

/-! ## Saturation -/

/-- The end of the range of signed words that lies on the side of a word's sign. -/
def signedLimit (a : UInt32) : UInt32 := if isBit a 31 then 0x80000000 else 0x7FFFFFFF

/-- The sum of signed words, or the end of the range that it runs past, and whether it does. -/
def saturatingAdd (a b : UInt32) : UInt32 × Bool :=
  let s := add a b
  (if s.overflow then signedLimit a else s.value, s.overflow)

/-- The difference of signed words, or the end of the range that it runs past, and whether it
does. -/
def saturatingSub (a b : UInt32) : UInt32 × Bool :=
  let s := sub a b
  (if s.overflow then signedLimit a else s.value, s.overflow)

/-! ## Products -/

/-- The upper or lower half of a word with its sign copied upwards. -/
def signedHalf (x : UInt32) (top : Bool) : UInt32 := signExtend16 (if top then x >>> 16 else x)

/-- The product of two unsigned words. -/
def unsignedProduct (a b : UInt32) : UInt64 := a.toUInt64 * b.toUInt64

/-- The product of two signed words. -/
def signedProduct (a b : UInt32) : Int64 := a.toInt32.toInt64 * b.toInt32.toInt64

/-- Two words as the halves of a long one. -/
def long (high low : UInt32) : UInt64 := (high.toUInt64 <<< 32) ||| low.toUInt64

/-- The upper half of a long word. -/
def highWord (x : UInt64) : UInt32 := (x >>> 32).toUInt32

end Arithmetic
end Handheld
