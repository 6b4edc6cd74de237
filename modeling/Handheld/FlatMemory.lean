import Handheld.Bytes
import Handheld.Cpu.Step

/-!
# A processor on flat memory

The smallest system around a core: 64 KiB of memory without regions, a table of wait times, an
interrupt controller and fixed answers to the other callbacks. Everything that the core asks of
it is kept as a trace. A minimal version of it answers no more than memory accesses.
-/

namespace Handheld

/-- One request of a core to the system around it. -/
inductive BusRequest where
  | read (w : Width) (address : UInt32)
  | write (w : Width) (address value : UInt32)
  | exception (e : Exception)
  | nativeCall (comment : UInt8)
  | controlRead (cn cm cp : UInt32)
  | controlWrite (cn cm cp value : UInt32)
  deriving DecidableEq, Repr

/-- Memory of 64 KiB with the settings of the system around it. -/
structure FlatMemory where
  bytes : Block 0x10000 := Bytes.zeros 0x10000
  /-- Cycles of an access, by the rank of its width and its kind. -/
  waits : Vector UInt16 12 := Vector.replicate 12 1
  interrupts : InterruptController := {}
  vectorBase : UInt32 := 0
  /-- Cycles of a software interrupt that is served natively. -/
  nativeCycles : Option UInt64 := none
  /-- What every register of the system control coprocessor reads. -/
  control : UInt32 := 0
  /-- The requests that were recorded, newest first. -/
  trace : List BusRequest := []

namespace FlatMemory

/-- Where an address lies in the memory: the low 16 bits count, rounded down to the width. -/
def offset (w : Width) (address : UInt32) : Nat :=
  (Address.alignDown (address &&& 0xFFFF) w.bytes).toNat

/-- The value at an address. -/
def get (m : FlatMemory) (w : Width) (address : UInt32) : UInt32 :=
  m.bytes.valueAt w.bytes.toNat (offset w address)

/-- Store a value at an address. -/
def set (m : FlatMemory) (w : Width) (address value : UInt32) : FlatMemory :=
  { m with bytes := m.bytes.setValue w.bytes.toNat (offset w address) value }

/-- Keep a request. -/
def record (m : FlatMemory) (request : BusRequest) : FlatMemory :=
  { m with trace := request :: m.trace }

/-- Cycles of an access. -/
def waitOf (m : FlatMemory) (w : Width) (access : Access) : UInt16 :=
  have : w.rank.val * 4 + (access &&& 3).toNat < 12 := by
    have : (access &&& 3).toNat ≤ 3 := by simpa using Nat.and_le_right
    have := w.rank.isLt
    omega
  m.waits[w.rank.val * 4 + (access &&& 3).toNat]

/-! ## Callbacks -/

open BoardM

/-- Read a value and keep the request. -/
def read (w : Width) (address : UInt32) : BoardM FlatMemory UInt32 := do
  update (·.record (.read w address))
  ask (·.get w address)

/-- Store a value and keep the request. -/
def write (w : Width) (address value : UInt32) : BoardM FlatMemory Unit :=
  update fun m => (m.record (.write w address value)).set w address value

/-- A core that can do no more than reach the memory. -/
def minimalCore (p : Processor) : Core FlatMemory where
  processor := p
  read := read
  write := write
  waitTime := fun w _ access => ask (·.waitOf w access)
  interrupts := (·.interrupts)

/-- A core whose every callback is answered from the settings. -/
def fullCore (p : Processor) : Core FlatMemory :=
  { minimalCore p with
    vectorBase := (·.vectorBase)
    onException := fun e => update (·.record (.exception e))
    nativeCall := fun comment => do
      update (·.record (.nativeCall comment))
      ask (·.nativeCycles)
    controlRead := fun cn cm cp => do
      update (·.record (.controlRead cn cm cp))
      ask (·.control)
    controlWrite := fun cn cm cp value => update (·.record (.controlWrite cn cm cp value)) }

end FlatMemory
end Handheld
