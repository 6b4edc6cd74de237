import Handheld.Codec
import Handheld.Console.Lanes
import Handheld.Word

/-!
# The math units

The main processor's divider and square root unit. A result is computed as soon as an input or
the mode changes; only the busy bit tells that it takes time.
-/

namespace Handheld.Console

open Word

/-! ## Division -/

/-- The divider. Bits 0 and 1 of its control register are the mode, bit 14 tells that the divisor
is zero, bit 15 that the result is not ready. -/
structure Divider where
  control : UInt16 := 0
  numerator : UInt64 := 0
  denominator : UInt64 := 0
  quotient : UInt64 := 0
  remainder : UInt64 := 0
  deriving DecidableEq, Repr, Inhabited

namespace Divider

/-- The widths of numerator and denominator. -/
inductive Mode where
  | bits32By32 | bits64By32 | bits64By64
  deriving DecidableEq, Repr

/-- The mode that the control register chooses. -/
def mode (d : Divider) : Mode :=
  match bits d.control 0 2 with
  | 0 => .bits32By32
  | 1 => .bits64By32
  | _ => .bits64By64

/-- Whether a result is not ready yet. -/
def isBusy (d : Divider) : Bool := isBit d.control 15

def setBusy (d : Divider) (busy : Bool) : Divider := { d with control := setBit d.control 15 busy }

/-- Quotient and remainder of 32-bit numbers. A zero divisor gives one of the wrong sign with the
upper half inverted, and a quotient that is out of range runs into the upper half. -/
def divide32 (n d : Int32) : UInt64 × UInt64 :=
  if d = 0 then
    (if n < 0 then 0xFFFFFFFF00000001 else 0xFFFFFFFF, n.toInt64.toUInt64)
  else if n = Int32.minValue ∧ d = -1 then (0x80000000, 0)
  else ((n / d).toInt64.toUInt64, (n % d).toInt64.toUInt64)

/-- Quotient and remainder of 64-bit numbers. A zero divisor gives one of the wrong sign, and a
quotient that is out of range wraps around. -/
def divide64 (n d : Int64) : UInt64 × UInt64 :=
  if d = 0 then (if n < 0 then 1 else 0xFFFFFFFFFFFFFFFF, n.toUInt64)
  else ((n / d).toUInt64, (n % d).toUInt64)

/-- Compute the result anew. The zero bit looks at all 64 bits of the denominator. -/
def update (d : Divider) : Divider :=
  let (quotient, remainder) :=
    match d.mode with
    | .bits32By32 => divide32 d.numerator.toUInt32.toInt32 d.denominator.toUInt32.toInt32
    | .bits64By32 => divide64 d.numerator.toInt64 d.denominator.toUInt32.toInt32.toInt64
    | .bits64By64 => divide64 d.numerator.toInt64 d.denominator.toInt64
  { d with control := setBit d.control 14 (d.denominator == 0), quotient, remainder }

/-- Write the control register, of which only the mode can be written. -/
def writeControl (d : Divider) (value : UInt16) : Divider :=
  { d with control := (d.control &&& ~~~3) ||| (value &&& 3) }

/-- Cycles until a result is ready. -/
def latency (d : Divider) : Int64 := if d.mode = .bits32By32 then 18 else 34

open Codec in
/-- The saved form. -/
def codec : Codec Divider :=
  (u16.pair <| u64.pair <| u64.pair <| u64.pair u64).imap
    (fun (control, numerator, denominator, quotient, remainder) =>
      { control, numerator, denominator, quotient, remainder })
    (fun d => (d.control, d.numerator, d.denominator, d.quotient, d.remainder))

end Divider

/-! ## Square roots -/

/-- The square root unit. Bit 0 of its control register chooses a 64-bit input, bit 15 tells that
the result is not ready. -/
structure SquareRoot where
  control : UInt16 := 0
  input : UInt64 := 0
  result : UInt32 := 0
  deriving DecidableEq, Repr, Inhabited

namespace SquareRoot

/-- Whether all 64 bits of the input count. -/
def isWide (r : SquareRoot) : Bool := isBit r.control 0

/-- Whether a result is not ready yet. -/
def isBusy (r : SquareRoot) : Bool := isBit r.control 15

def setBusy (r : SquareRoot) (busy : Bool) : SquareRoot :=
  { r with control := setBit r.control 15 busy }

/-- The number whose root is taken. -/
def operand (r : SquareRoot) : Nat := if r.isWide then r.input.toNat else r.input.toUInt32.toNat

/-- Compute the result anew: the greatest number whose square does not exceed the operand. -/
def update (r : SquareRoot) : SquareRoot := { r with result := UInt32.ofNat r.operand.sqrt }

/-- Write the control register, of which only the mode can be written. -/
def writeControl (r : SquareRoot) (value : UInt16) : SquareRoot :=
  { r with control := setBit r.control 0 (isBit value 0) }

/-- Cycles until a result is ready. -/
def latency : Int64 := 13

open Codec in
/-- The saved form. -/
def codec : Codec SquareRoot :=
  (u16.pair <| u64.pair u32).imap
    (fun (control, input, result) => { control, input, result })
    (fun r => (r.control, r.input, r.result))

end SquareRoot
end Handheld.Console
