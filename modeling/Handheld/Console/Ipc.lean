import Handheld.Console.Lanes
import Handheld.Console.PerProcessor
import Handheld.Word

/-!
# The synchronisation registers

Each processor shows four bits to the other one, and can raise an interrupt there if the other
one lets it.
-/

namespace Handheld.Console

open Word

/-- The synchronisation registers of both processors. Of what was written only the shown bits
(8 to 11) and the permission to raise an interrupt (bit 14) are kept. -/
structure Ipc where
  registers : PerProcessor UInt16 := ⟨0, 0⟩
  deriving DecidableEq, Repr, Inhabited

namespace Ipc

/-- Bits of the register that keep what was written. -/
def keptMask : UInt16 := 0x4F00

/-- Whether the processor lets the other one raise an interrupt. -/
def permits (ipc : Ipc) (p : Processor) : Bool := isBit (ipc.registers.get p) 14

/-- The register as its processor reads it: the bits that the other one shows come first. -/
def read (ipc : Ipc) (p : Processor) : UInt16 :=
  (ipc.registers.get p &&& 0xFFF0) ||| bits (ipc.registers.get p.other) 8 4

/-- Write a processor's register. Returns whether an interrupt is raised on the other one. -/
def write (ipc : Ipc) (p : Processor) (lanes : Lanes) : Ipc × Bool :=
  let old := ipc.registers.get p
  let new := lanes.merge16 old
  let kept := (old &&& ~~~keptMask) ||| (new &&& keptMask)
  (⟨ipc.registers.set p kept⟩, isBit new 13 && ipc.permits p.other)

/-- The saved form. -/
def codec : Codec Ipc := (PerProcessor.codec Codec.u16).imap Ipc.mk Ipc.registers

end Ipc
end Handheld.Console
