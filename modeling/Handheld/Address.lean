import Handheld.Hex
import Handheld.Word

/-!
# Addresses

Addresses are words of 32 bits and wrap around. Offsets from them are signed words.
-/

namespace Handheld.Address

/-- The address rounded down to a multiple of `size`, a power of two. -/
def alignDown (address size : UInt32) : UInt32 := address &&& ~~~(size - 1)

/-- The address moved by a signed offset. -/
def displace (address : UInt32) (offset : Int32) : UInt32 := address + offset.toUInt32

/-- The address moved up or down by a distance. -/
def move (address distance : UInt32) (up : Bool) : UInt32 :=
  if up then address + distance else address - distance

/-- How listings write an address. -/
def text (address : UInt32) : String := "$0x" ++ Hex.digits address.toNat

/-- How listings write an offset. -/
def offsetText (offset : Int32) : String :=
  (if offset < 0 then "$-0x" else "$0x") ++ Hex.digits offset.toInt.natAbs

end Handheld.Address
