import Handheld.Word

/-!
# Operators with checked ranges

Machine words wrap around. The operators here do not: they have a result only if the exact one is
in the range of its type, a shift only if its amount is less than the width, and an index only if
it is within bounds. A shift by an amount that is written as a number needs no check.
-/

namespace Handheld

/-- Why something has no result. -/
inductive Fault where
  /-- The exact result is not in the range of its type. -/
  | outOfRange
  /-- An index is past the end. -/
  | outOfBounds
  /-- More rounds would be needed than were allowed. -/
  | outOfFuel
  deriving DecidableEq, Repr

/-- A result, or why there is none. -/
abbrev Checked := Except Fault

namespace Checked

open Word

/-- A result that is in range under a condition. -/
def within {α : Type} (inRange : Prop) [Decidable inRange] (result : α) : Checked α :=
  if inRange then .ok result else .error .outOfRange

/-! ## Words -/

def add (a b : UInt32) : Checked UInt32 := within (a.toNat + b.toNat < 0x100000000) (a + b)

def sub (a b : UInt32) : Checked UInt32 := within (b ≤ a) (a - b)

def mul (a b : UInt32) : Checked UInt32 := within (a.toNat * b.toNat < 0x100000000) (a * b)

def addLong (a b : UInt64) : Checked UInt64 :=
  within (a.toNat + b.toNat < 0x10000000000000000) (a + b)

/-! ## Signed words -/

def addSigned (a b : Int32) : Checked Int32 :=
  let exact := a.toInt + b.toInt
  within (-0x80000000 ≤ exact ∧ exact < 0x80000000) (a + b)

def mulSigned (a b : Int32) : Checked Int32 :=
  let exact := a.toInt * b.toInt
  within (-0x80000000 ≤ exact ∧ exact < 0x80000000) (a * b)

def negSigned (a : Int32) : Checked Int32 :=
  let exact := -a.toInt
  within (-0x80000000 ≤ exact ∧ exact < 0x80000000) (-a)

def subSignedLong (a b : Int64) : Checked Int64 :=
  let exact := a.toInt - b.toInt
  within (-0x8000000000000000 ≤ exact ∧ exact < 0x8000000000000000) (a - b)

def mulSignedLong (a b : Int64) : Checked Int64 :=
  let exact := a.toInt * b.toInt
  within (-0x8000000000000000 ≤ exact ∧ exact < 0x8000000000000000) (a * b)

def shiftRightSigned (a : Int32) (amount : UInt32) : Checked Int32 :=
  within (amount < 32) (a >>> amount.toInt32)

/-! ## Bits -/

section
variable {α : Type} [Word α]

def shiftLeft (x : α) (amount : Nat) : Checked α := within (amount < width α) (x <<< ofNat amount)

def shiftRight (x : α) (amount : Nat) : Checked α := within (amount < width α) (x >>> ofNat amount)

/-- Bit `i` as a word, 0 or 1. -/
def bit (x : α) (i : Nat) : Checked α := do return (← shiftRight x i) &&& ofNat 1

/-- Whether bit `i` is set, by a mask with a single one. -/
def isBit (x : α) (i : Nat) : Checked Bool := do
  return (x &&& (← shiftLeft (ofNat 1) i)) != ofNat 0

/-- The word with bit `i` forced to `state`, by a mask with a single one. -/
def setBit (x : α) (i : Nat) (state : Bool) : Checked α := do
  let mask ← shiftLeft (ofNat 1) i
  return (x &&& ~~~mask) ||| (← shiftLeft (ofNat state.toNat) i)

end

/-! ## Positions -/

/-- How far one position is past another. -/
def distance (i j : Nat) : Checked Nat := within (j ≤ i) (i - j)

/-- An index into a table of `size` entries. -/
def index (size i : Nat) : Checked (Fin size) :=
  if h : i < size then .ok ⟨i, h⟩ else .error .outOfBounds

end Checked
end Handheld
