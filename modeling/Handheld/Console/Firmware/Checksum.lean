import Handheld.Word

/-!
# The firmware's checksum

A cyclic redundancy check of 16 bits, least significant bit first, with the polynomial 0xA001.
-/

namespace Handheld.Console.Firmware

open Word

/-- One bit of the check: the register moves down, and the polynomial is added if a one fell
out. -/
def checksumBit (crc : UInt16) : UInt16 :=
  if isBit crc 0 then (crc >>> 1) ^^^ 0xA001 else crc >>> 1

/-- Several bits of the check. -/
def checksumBits : Nat → UInt16 → UInt16
  | 0, crc => crc
  | n + 1, crc => checksumBits n (checksumBit crc)

/-- One byte of the check. -/
def checksumByte (crc : UInt16) (byte : UInt8) : UInt16 := checksumBits 8 (crc ^^^ byte.toUInt16)

/-- The checksum of bytes that follow those of an earlier checksum. -/
def checksum (crc : UInt16) (bytes : List UInt8) : UInt16 := bytes.foldl checksumByte crc

end Handheld.Console.Firmware
