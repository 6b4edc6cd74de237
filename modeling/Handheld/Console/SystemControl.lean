import Handheld.Codec
import Handheld.Index
import Handheld.Word

/-!
# The system control coprocessor

The main processor's coprocessor for identification, protection regions, caches and the two
tightly coupled memories. Only the memories' windows, the vector base and the halt command have
an effect; everything else is kept to be read back.

A window is computed whenever a register that it depends on is written, and is kept beside the
registers. Its end is held in 32 bits, so a window never covers the last byte of the address
space.
-/

namespace Handheld.Console

open Word

/-- A tightly coupled memory. -/
inductive Tcm where
  | data | inst
  deriving DecidableEq, Repr

namespace Tcm

/-- Number of bytes, which repeat over the window. -/
def size : Tcm → UInt32
  | data => 0x4000
  | inst => 0x8000

end Tcm

/-- What an enabled window lets through. -/
inductive TcmState where
  | disabled
  /-- Writes reach the memory, reads the bus. -/
  | writeOnly
  | readWrite
  deriving DecidableEq, Repr, Inhabited

/-- Where a tightly coupled memory is found. The end does not belong to the window. -/
structure TcmWindow where
  state : TcmState := .disabled
  start : UInt32 := 0
  stop : UInt32 := 0
  deriving DecidableEq, Repr, Inhabited

namespace TcmWindow

/-- Where an access lands in the memory, if the window takes it. -/
def offset? (w : TcmWindow) (size address : UInt32) (write : Bool) : Option UInt32 :=
  let takes :=
    match w.state with
    | .disabled => false
    | .writeOnly => write
    | .readWrite => true
  if takes && w.start ≤ address && address < w.stop then some ((address - w.start) &&& (size - 1))
  else none

end TcmWindow

/-- A pair of registers, indexed by the last operand of a coprocessor transfer. -/
structure Both (α : Type) where
  first : α
  second : α
  deriving DecidableEq, Repr, Inhabited

namespace Both

variable {α : Type}

def get (b : Both α) (second : Bool) : α := if second then b.second else b.first

def set (b : Both α) (second : Bool) (value : α) : Both α :=
  if second then { b with second := value } else { b with first := value }

/-- The saved form. -/
def codec (c : Codec α) : Codec (Both α) :=
  (c.pair c).imap (fun (a, b) => ⟨a, b⟩) (fun b => (b.first, b.second))

end Both

/-- The registers of the coprocessor and the windows computed from them. In the pairs of the
tightly coupled memories the data memory comes first. -/
structure SystemControl where
  control : UInt32
  cacheBits : Both UInt8 := ⟨0, 0⟩
  bufferableBits : UInt8 := 0
  accessBits : Both UInt16 := ⟨0, 0⟩
  accessBitsExtended : Both UInt32 := ⟨0, 0⟩
  regions : Both (Vector UInt32 8) := ⟨Vector.replicate 8 0, Vector.replicate 8 0⟩
  cacheLockdown : Both UInt32 := ⟨0, 0⟩
  tcmControl : Both UInt32
  traceProcess : UInt32 := 0
  dataWindow : TcmWindow := {}
  instWindow : TcmWindow := {}
  deriving DecidableEq, Repr

namespace SystemControl

/-! ## Windows -/

/-- Size of a window: 512 bytes doubled as often as bits 1 to 5 of its register say. Sizes that
32 bits cannot hold are cut to the greatest one that they can. -/
def windowSize (tcmControl : UInt32) : UInt32 :=
  let size := (512 : UInt64) <<< (bits tcmControl 1 5).toUInt64
  if size < 0x100000000 then size.toUInt32 else 0xFFFFFFFF

/-- The end of a window that starts at `start`, at most the last address. -/
def windowStop (start size : UInt32) : UInt32 :=
  if size ≤ 0xFFFFFFFF - start then start + size else 0xFFFFFFFF

/-- State of a window from the enable bit and, above it, the load mode bit. -/
def windowState (control : UInt32) (enable : Nat) : TcmState :=
  if !isBit control enable then .disabled
  else if isBit control (enable + 1) then .writeOnly
  else .readWrite

/-- Compute the window of the data memory, whose base is programmed. -/
def updateDataWindow (c : SystemControl) : SystemControl :=
  let start := c.tcmControl.first &&& 0xFFFFF000
  { c with
    dataWindow :=
      { state := windowState c.control 16
        start
        stop := windowStop start (windowSize c.tcmControl.first) } }

/-- Compute the window of the instruction memory, whose base is zero. -/
def updateInstWindow (c : SystemControl) : SystemControl :=
  { c with
    instWindow :=
      { state := windowState c.control 18, start := 0, stop := windowSize c.tcmControl.second } }

/-- Where an access lands in a tightly coupled memory, if it hits the memory's window. -/
def tcmOffset? (c : SystemControl) (tcm : Tcm) (address : UInt32) (write : Bool) :
    Option UInt32 :=
  let window :=
    match tcm with
    | .data => c.dataWindow
    | .inst => c.instWindow
  window.offset? tcm.size address write

/-- Where the exception vectors start. -/
def vectorBase (c : SystemControl) : UInt32 := if isBit c.control 13 then 0xFFFF0000 else 0

/-- The coprocessor at power-up: high vectors, and both memories enabled. -/
def initial : SystemControl :=
  ({ control := 0x00052000, tcmControl := ⟨0x027C000A, 0x20⟩ } : SystemControl)
    |>.updateDataWindow.updateInstWindow

instance : Inhabited SystemControl := ⟨initial⟩

/-! ## Registers -/

/-- The value of a register, if it exists. -/
def read? (c : SystemControl) (cn cm cp : UInt32) : Option UInt32 :=
  match cn.toNat, cm.toNat, cp.toNat with
  | 0, 0, 1 => some 0x0F0D2112
  | 0, 0, 2 => some 0x00140180
  | 0, 0, op => if op = 0 ∨ 3 ≤ op ∧ op ≤ 7 then some 0x41059461 else none
  | 1, 0, 0 => some c.control
  | 2, 0, 0 => some c.cacheBits.first.toUInt32
  | 2, 0, 1 => some c.cacheBits.second.toUInt32
  | 3, 0, 0 => some c.bufferableBits.toUInt32
  | 5, 0, 0 => some c.accessBits.first.toUInt32
  | 5, 0, 1 => some c.accessBits.second.toUInt32
  | 5, 0, 2 => some c.accessBitsExtended.first
  | 5, 0, 3 => some c.accessBitsExtended.second
  | 6, region, 0 => some c.regions.first[Fin.ofNat 8 region]
  | 6, region, 1 => some c.regions.second[Fin.ofNat 8 region]
  | 9, 0, 0 => some c.cacheLockdown.first
  | 9, 0, 1 => some c.cacheLockdown.second
  | 9, 1, 0 => some c.tcmControl.first
  | 9, 1, 1 => some c.tcmControl.second
  | 13, 0, 1 | 13, 1, 1 => some c.traceProcess
  | _, _, _ => none

/-- What a write to the coprocessor brings about. -/
inductive WriteEffect where
  | none
  /-- The processor halts. -/
  | halt
  /-- There is no such register. -/
  | unknown
  deriving DecidableEq, Repr

/-- Write a register. -/
def write (c : SystemControl) (cn cm cp value : UInt32) : SystemControl × WriteEffect :=
  match cn.toNat, cm.toNat, cp.toNat with
  | 0, 0, _ => (c, .none)
  | 1, 0, 0 => ({ c with control := value }.updateDataWindow.updateInstWindow, .none)
  | 2, 0, 0 => ({ c with cacheBits := c.cacheBits.set false value.toUInt8 }, .none)
  | 2, 0, 1 => ({ c with cacheBits := c.cacheBits.set true value.toUInt8 }, .none)
  | 3, 0, 0 => ({ c with bufferableBits := value.toUInt8 }, .none)
  | 5, 0, 0 => ({ c with accessBits := c.accessBits.set false value.toUInt16 }, .none)
  | 5, 0, 1 => ({ c with accessBits := c.accessBits.set true value.toUInt16 }, .none)
  | 5, 0, 2 => ({ c with accessBitsExtended := c.accessBitsExtended.set false value }, .none)
  | 5, 0, 3 => ({ c with accessBitsExtended := c.accessBitsExtended.set true value }, .none)
  | 6, region, 0 =>
    let i := Fin.ofNat 8 region
    ({ c with regions := c.regions.set false (c.regions.first.set i value) }, .none)
  | 6, region, 1 =>
    let i := Fin.ofNat 8 region
    ({ c with regions := c.regions.set true (c.regions.second.set i value) }, .none)
  | 7, 0, 4 | 7, 8, 2 => (c, .halt)
  | 7, _, _ => (c, .none)
  | 9, 0, 0 => ({ c with cacheLockdown := c.cacheLockdown.set false value }, .none)
  | 9, 0, 1 => ({ c with cacheLockdown := c.cacheLockdown.set true value }, .none)
  | 9, 1, 0 => ({ c with tcmControl := c.tcmControl.set false value }.updateDataWindow, .none)
  | 9, 1, 1 => ({ c with tcmControl := c.tcmControl.set true value }.updateInstWindow, .none)
  | 13, 0, 1 | 13, 1, 1 => ({ c with traceProcess := value }, .none)
  | _, _, _ => (c, .unknown)

/-! ## Saved form -/

open Codec in
/-- The saved form of a window's state. -/
def stateCodec : Codec TcmState :=
  (tag 3).imap
    (fun
      | 0 => .disabled
      | 1 => .writeOnly
      | 2 => .readWrite)
    (fun
      | .disabled => 0
      | .writeOnly => 1
      | .readWrite => 2)

open Codec in
/-- The saved form. -/
def codec : Codec SystemControl :=
  (u32.pair <| Both.codec u8 |>.pair <| u8.pair <| Both.codec u16 |>.pair <|
    Both.codec u32 |>.pair <| Both.codec (vector 8 u32) |>.pair <| Both.codec u32 |>.pair <|
    Both.codec u32 |>.pair <| u32.pair <| stateCodec.pair <| stateCodec.pair <|
    (u32.pair u32).pair (u32.pair u32)).imap
    (fun (control, cacheBits, bufferableBits, accessBits, accessBitsExtended, regions,
        cacheLockdown, tcmControl, traceProcess, dataState, instState, (dataStart, dataStop),
        (instStart, instStop)) =>
      { control, cacheBits, bufferableBits, accessBits, accessBitsExtended, regions,
        cacheLockdown, tcmControl, traceProcess
        dataWindow := ⟨dataState, dataStart, dataStop⟩
        instWindow := ⟨instState, instStart, instStop⟩ })
    (fun c => (c.control, c.cacheBits, c.bufferableBits, c.accessBits, c.accessBitsExtended,
      c.regions, c.cacheLockdown, c.tcmControl, c.traceProcess, c.dataWindow.state,
      c.instWindow.state, (c.dataWindow.start, c.dataWindow.stop),
      (c.instWindow.start, c.instWindow.stop)))

end SystemControl
end Handheld.Console
