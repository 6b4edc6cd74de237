import Handheld.Bytes
import Handheld.Console.PerProcessor

/-!
# The console's memories

The main memory and the shared work memory of both processors, the companion processor's own work
memory, the two tightly coupled memories of the main processor, and the flags that tell that the
firmware has run. The first three keep the size that a saved state gives them.
-/

namespace Handheld.Console

/-- Sizes of the memories in bytes. -/
def mainSize : Nat := 0x400000
def sharedSize : Nat := 0x8000
def workSize : Nat := 0x10000
def instTcmSize : Nat := 0x8000
def dataTcmSize : Nat := 0x4000

/-- A memory without contents. Each is built once and shared until it is written to. -/
def emptyMain : Block mainSize := Bytes.zeros mainSize
def emptyShared : Block sharedSize := Bytes.zeros sharedSize
def emptyWork : Block workSize := Bytes.zeros workSize
def emptyInstTcm : Block instTcmSize := Bytes.zeros instTcmSize
def emptyDataTcm : Block dataTcmSize := Bytes.zeros dataTcmSize

/-- The contents of all memories. -/
structure Memory where
  main : ByteArray := emptyMain.val
  shared : ByteArray := emptyShared.val
  /-- The companion processor's work memory. -/
  work : ByteArray := emptyWork.val
  instTcm : Block instTcmSize := emptyInstTcm
  dataTcm : Block dataTcmSize := emptyDataTcm
  /-- Bit 0 tells that the firmware has run; it cannot be cleared. -/
  bootFlags : PerProcessor UInt8 := ⟨0, 0⟩

/-- One of the memories. -/
inductive Region where
  | main | shared | work | instTcm | dataTcm
  deriving DecidableEq, Repr

namespace Region

/-- Size of a memory, over which an address in it repeats. -/
def size : Region → Nat
  | main => mainSize
  | shared => sharedSize
  | work => workSize
  | instTcm => instTcmSize
  | dataTcm => dataTcmSize

end Region

namespace Memory

/-- The bytes of a memory. -/
def bytes (m : Memory) : Region → ByteArray
  | .main => m.main
  | .shared => m.shared
  | .work => m.work
  | .instTcm => m.instTcm.val
  | .dataTcm => m.dataTcm.val

/-- The little-endian value of `count` bytes in a memory. -/
def read (m : Memory) (region : Region) (count offset : Nat) : UInt32 :=
  Bytes.valueAt (m.bytes region) count offset

/-- Store the `count` low bytes of a value in a memory. -/
def write (m : Memory) (region : Region) (count offset : Nat) (value : UInt32) : Memory :=
  match region with
  | .main => { m with main := Bytes.setValue m.main count offset value }
  | .shared => { m with shared := Bytes.setValue m.shared count offset value }
  | .work => { m with work := Bytes.setValue m.work count offset value }
  | .instTcm => { m with instTcm := m.instTcm.setValue count offset value }
  | .dataTcm => { m with dataTcm := m.dataTcm.setValue count offset value }

open Codec in
/-- The saved form. -/
def codec : Codec Memory :=
  (blob.pair <| blob.pair <| blob.pair <| block instTcmSize |>.pair <|
    block dataTcmSize |>.pair <| PerProcessor.codec u8).imap
    (fun (main, shared, work, instTcm, dataTcm, bootFlags) =>
      { main, shared, work, instTcm, dataTcm, bootFlags })
    (fun m => (m.main, m.shared, m.work, m.instTcm, m.dataTcm, m.bootFlags))

end Memory
end Handheld.Console
