/-!
# Machine words

Bit access on the four unsigned word widths, and the sign extensions and rotations that the
processors are described with. A bit position is a natural number, counted from the least
significant bit. Shifting by the operators of the standard library takes the amount modulo the
width; `shl` and `shr` here give zero instead once every bit has left the word.
-/

namespace Handheld

/-- The unsigned words of 8, 16, 32 and 64 bits. -/
class Word (α : Type) extends AndOp α, OrOp α, Complement α, Sub α, ShiftLeft α, ShiftRight α,
    BEq α where
  /-- Number of bits. -/
  width : Nat
  /-- The word congruent to a number. -/
  ofNat : Nat → α
  /-- The number that a word denotes. -/
  toNat : α → Nat

instance : Word UInt8 where
  width := 8
  ofNat := UInt8.ofNat
  toNat := UInt8.toNat

instance : Word UInt16 where
  width := 16
  ofNat := UInt16.ofNat
  toNat := UInt16.toNat

instance : Word UInt32 where
  width := 32
  ofNat := UInt32.ofNat
  toNat := UInt32.toNat

instance : Word UInt64 where
  width := 64
  ofNat := UInt64.ofNat
  toNat := UInt64.toNat

namespace Word

/-! ## Single bits and fields -/

section
variable {α : Type} [Word α]

/-- Bit `i` as a word, 0 or 1. -/
@[inline] def bit (x : α) (i : Nat) : α := (x >>> ofNat i) &&& ofNat 1

/-- Whether bit `i` is set. -/
@[inline] def isBit (x : α) (i : Nat) : Bool := (x &&& (ofNat 1 <<< ofNat i)) != ofNat 0

/-- The word with bit `i` forced to `state`. -/
@[inline] def setBit (x : α) (i : Nat) (state : Bool) : α :=
  (x &&& ~~~(ofNat 1 <<< ofNat i)) ||| (ofNat state.toNat <<< ofNat i)

/-- Shift to the left; an amount of at least the width gives zero. -/
@[inline] def shl (x : α) (amount : Nat) : α :=
  if amount < width α then x <<< ofNat amount else ofNat 0

/-- Shift to the right; an amount of at least the width gives zero. -/
@[inline] def shr (x : α) (amount : Nat) : α :=
  if amount < width α then x >>> ofNat amount else ofNat 0

/-- The `len` bits that start at bit `start`, moved down to bit 0. -/
@[inline] def bits (x : α) (start len : Nat) : α :=
  shr x start &&& (shl (ofNat 1) len - ofNat 1)

end

/-! ## Sign extension -/

/-- The low 11 bits as a signed number. -/
def signExtend11 (x : UInt16) : Int32 := (((x &&& 0x7FF) <<< 5).toInt16 >>> 5).toInt32

/-- The low 24 bits as a signed number. -/
def signExtend24 (x : UInt32) : Int32 := (x <<< 8).toInt32 >>> 8

/-- The low byte, with its sign bit copied upwards. -/
def signExtend8 (x : UInt32) : UInt32 := x.toUInt8.toInt8.toInt32.toUInt32

/-- The low halfword, with its sign bit copied upwards. -/
def signExtend16 (x : UInt32) : UInt32 := x.toUInt16.toInt16.toInt32.toUInt32

/-! ## Rotation and counting -/

/-- Rotate right by an amount that counts modulo 32. -/
def rotateRight (x amount : UInt32) : UInt32 := (x >>> amount) ||| (x <<< (32 - amount))

/-- Number of zero bits above the highest set bit, 32 for zero. -/
def leadingZeros (x : UInt32) : UInt32 := if x == 0 then 32 else 31 - x.log2

end Word
end Handheld
