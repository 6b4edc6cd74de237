/-!
# Hexadecimal text

The spellings of numbers that traces, listings and messages use: upper-case digits, either as
many as needed or padded with zeros to a fixed count.
-/

namespace Handheld.Hex

/-- Upper-case digits, no more than needed. -/
def digits (n : Nat) : String := String.ofList ((Nat.toDigits 16 n).map Char.toUpper)

/-- Upper-case digits, padded with zeros on the left to at least `count`. -/
def padded (count n : Nat) : String :=
  let text := digits n
  "".pushn '0' (count - text.length) ++ text

/-- A word of 32 bits in exactly eight digits. -/
def word (x : UInt32) : String := padded 8 x.toNat

end Handheld.Hex
