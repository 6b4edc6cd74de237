/-!
# Byte regions

Little-endian access to a region of bytes. A position beyond the end reads as zero and ignores
writes, so every access is total; where a region's size is part of its type no access of the
library goes there.
-/

namespace Handheld

/-- A region of exactly `n` bytes. -/
abbrev Block (n : Nat) := { bytes : ByteArray // bytes.size = n }

namespace Bytes

/-- The byte at a position. -/
def byteAt (bytes : ByteArray) (i : Nat) : UInt8 := if h : i < bytes.size then bytes[i] else 0

/-- Overwrite the byte at a position. -/
def setByte (bytes : ByteArray) (i : Nat) (value : UInt8) : ByteArray :=
  if h : i < bytes.size then bytes.set i value h else bytes

@[simp] theorem size_setByte (bytes : ByteArray) (i : Nat) (value : UInt8) :
    (setByte bytes i value).size = bytes.size := by
  unfold setByte
  split
  · exact Array.size_set ..
  · rfl

/-- The little-endian value of `n` bytes from a position on. -/
def valueAt (bytes : ByteArray) : Nat → Nat → UInt32
  | 0, _ => 0
  | n + 1, i => (byteAt bytes i).toUInt32 ||| (valueAt bytes n (i + 1) <<< 8)

/-- Store the `n` low bytes of a value from a position on, lowest first. -/
def setValue (bytes : ByteArray) : Nat → Nat → UInt32 → ByteArray
  | 0, _, _ => bytes
  | n + 1, i, value => setValue (setByte bytes i value.toUInt8) n (i + 1) (value >>> 8)

@[simp] theorem size_setValue (bytes : ByteArray) (n i : Nat) (value : UInt32) :
    (setValue bytes n i value).size = bytes.size := by
  induction n generalizing bytes i value with
  | zero => rfl
  | succ n ih => simp [setValue, ih]

/-- A region of zeros. -/
def zeros (n : Nat) : Block n := ⟨⟨Array.replicate n 0⟩, Array.size_replicate⟩

end Bytes

namespace Block

variable {n : Nat}

/-- The little-endian value of `count` bytes from a position on. -/
def valueAt (block : Block n) (count i : Nat) : UInt32 := Bytes.valueAt block.val count i

/-- Store the `count` low bytes of a value from a position on. -/
def setValue (block : Block n) (count i : Nat) (value : UInt32) : Block n :=
  ⟨Bytes.setValue block.val count i value, by simp [block.property]⟩

end Block
end Handheld
