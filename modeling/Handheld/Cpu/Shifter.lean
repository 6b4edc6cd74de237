import Handheld.Word

/-!
# The barrel shifter

Shifts of a word by any amount. Each takes the carry and returns the carry that the shifter puts
out beside the result; whether it reaches the status register is the instruction's business.
-/

namespace Handheld

open Word

/-- Kind of a shift. -/
inductive ShiftKind where
  | lsl | lsr | asr | ror
  deriving DecidableEq, Repr, Inhabited

namespace ShiftKind

/-- The kind in bits 5 and 6 of an instruction. -/
def ofBits (inst : UInt32) : ShiftKind :=
  match bits inst 5 2 with
  | 0 => lsl
  | 1 => lsr
  | 2 => asr
  | _ => ror

/-- The kind's name in listings. -/
def name : ShiftKind → String
  | lsl => "lsl"
  | lsr => "lsr"
  | asr => "asr"
  | ror => "ror"

end ShiftKind

/-- What the shifter puts out. -/
structure Shifted where
  value : UInt32
  carry : Bool
  deriving DecidableEq, Repr

namespace Shifter

/-- Shift left. -/
def lsl (value amount : UInt32) (carry : Bool) : Shifted :=
  if amount = 0 then ⟨value, carry⟩
  else if amount < 32 then ⟨value <<< amount, isBit value (32 - amount.toNat)⟩
  else if amount = 32 then ⟨0, isBit value 0⟩
  else ⟨0, false⟩

/-- Shift right, filling with zeros. -/
def lsr (value amount : UInt32) (carry : Bool) : Shifted :=
  if amount = 0 then ⟨value, carry⟩
  else if amount < 32 then ⟨value >>> amount, isBit value (amount.toNat - 1)⟩
  else if amount = 32 then ⟨0, isBit value 31⟩
  else ⟨0, false⟩

/-- Shift right, filling with the sign. -/
def asr (value amount : UInt32) (carry : Bool) : Shifted :=
  if amount = 0 then ⟨value, carry⟩
  else if amount < 32 then ⟨(value.toInt32 >>> amount.toInt32).toUInt32, isBit value (amount.toNat - 1)⟩
  else ⟨(value.toInt32 >>> 31).toUInt32, isBit value 31⟩

/-- Rotate right. -/
def ror (value amount : UInt32) (carry : Bool) : Shifted :=
  if amount = 0 then ⟨value, carry⟩
  else if amount &&& 31 = 0 then ⟨value, isBit value 31⟩
  else ⟨rotateRight value (amount &&& 31), isBit value ((amount &&& 31).toNat - 1)⟩

/-- Rotate right by one through the carry. -/
def rrx (value : UInt32) (carry : Bool) : Shifted :=
  ⟨setBit (value >>> 1) 31 carry, isBit value 0⟩

/-- Shift by an amount given in the instruction. An amount of 0 stands for 32 in the right
shifts, and for a rotation through the carry. -/
def byImmediate (kind : ShiftKind) (value amount : UInt32) (carry : Bool) : Shifted :=
  match kind with
  | .lsl => lsl value amount carry
  | .lsr => lsr value (if amount = 0 then 32 else amount) carry
  | .asr => asr value (if amount = 0 then 32 else amount) carry
  | .ror => if amount = 0 then rrx value carry else ror value amount carry

/-- Shift by an amount given in a register, of which the low byte counts. -/
def byRegister (kind : ShiftKind) (value amount : UInt32) (carry : Bool) : Shifted :=
  let amount := amount &&& 0xFF
  match kind with
  | .lsl => lsl value amount carry
  | .lsr => lsr value amount carry
  | .asr => asr value amount carry
  | .ror => ror value amount carry

end Shifter
end Handheld
