/-!
# Lanes

A write that is narrower than a device register, or not aligned with it, covers only some of the
register's bytes. Such a part carries its bytes at the places that they take in the register,
together with a mask of the bytes covered.
-/

namespace Handheld.Console

/-- The bytes of a device register that a write covers. -/
structure Lanes where
  value : UInt32
  mask : UInt32
  deriving DecidableEq, Repr

namespace Lanes

/-- A register with the covered bytes replaced. -/
def merge (l : Lanes) (old : UInt32) : UInt32 := (old &&& ~~~l.mask) ||| (l.value &&& l.mask)

/-- The covered bytes over zeros. -/
def raw (l : Lanes) : UInt32 := l.value &&& l.mask

/-- A register of 16 bits with the covered bytes replaced. -/
def merge16 (l : Lanes) (old : UInt16) : UInt16 := (l.merge old.toUInt32).toUInt16

/-- A register of 64 bits with the covered bytes of one half replaced. -/
def mergeHalf (l : Lanes) (high : Bool) (old : UInt64) : UInt64 :=
  if high then (l.merge (old >>> 32).toUInt32).toUInt64 <<< 32 ||| (old &&& 0xFFFFFFFF)
  else (old &&& 0xFFFFFFFF00000000) ||| (l.merge old.toUInt32).toUInt64

end Lanes
end Handheld.Console
