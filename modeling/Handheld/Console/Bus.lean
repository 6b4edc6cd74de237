import Handheld.Console.Firmware.Stub
import Handheld.Console.Io

/-!
# The memory maps of the two processors

Where an address leads for each processor, and the accesses that follow from it. The main
processor's windows come first, then the byte at the top of the address chooses. An access is
always rounded down to its width.
-/

namespace Handheld.Console

open BoardM

/-- Where an access leads. -/
inductive Target where
  /-- To an offset in one of the memories. -/
  | memory (region : Region) (offset : Nat)
  /-- To the firmware stub, which can only be read. -/
  | stub (offset : UInt32)
  /-- To the device registers. -/
  | io
  | unmapped
  deriving DecidableEq, Repr

/-- An address in a memory that repeats over its part of the map. -/
def Region.at (region : Region) (address : UInt32) : Target :=
  .memory region (address.toNat % region.size)

/-- Where an address leads on the bus behind the windows. -/
def busTarget (p : Processor) (address : UInt32) : Target :=
  match p, (address >>> 24).toNat with
  | .arm7, 0x00 => .stub address
  | _, 0x02 => Region.main.at address
  | .arm7, 0x03 => if address < 0x03800000 then Region.shared.at address else Region.work.at address
  | .arm9, 0x03 => Region.shared.at address
  | _, 0x04 => .io
  | .arm9, 0xFF => if address < 0xFFFF0000 then .unmapped else .stub (address &&& 0xFFFF)
  | _, _ => .unmapped

/-- Where an address leads. -/
def System.target (s : System) (p : Processor) (address : UInt32) (write : Bool) : Target :=
  match p with
  | .arm7 => busTarget .arm7 address
  | .arm9 =>
    match s.control.tcmOffset? .inst address write with
    | some offset => .memory .instTcm offset.toNat
    | none =>
      match s.control.tcmOffset? .data address write with
      | some offset => .memory .dataTcm offset.toNat
      | none => busTarget .arm9 address

/-! ## Accesses -/

/-- Read from a processor's memory map. -/
def read (p : Processor) (w : Width) (address : UInt32) : BoardM System UInt32 := do
  let address := Address.alignDown address w.bytes
  match ← ask (·.target p address false) with
  | .memory region offset => ask (·.memory.read region w.bytes.toNat offset)
  | .stub offset => return w.truncate (Firmware.stubRead p offset)
  | .io => readIo p w address
  | .unmapped => return 0

/-- Write to a processor's memory map. -/
def write (p : Processor) (w : Width) (address value : UInt32) : BoardM System Unit := do
  let address := Address.alignDown address w.bytes
  match ← ask (·.target p address true) with
  | .memory region offset =>
    update fun s => { s with memory := s.memory.write region w.bytes.toNat offset value }
  | .io => writeIo p w address (w.truncate value)
  | .stub _ | .unmapped => report (.unmappedWrite address)

end Handheld.Console
