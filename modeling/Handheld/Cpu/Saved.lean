import Handheld.Codec
import Handheld.Cpu.State

/-!
# The saved form of a processor

All fields of the state in order, 191 bytes.
-/

namespace Handheld

open Codec

/-- The saved form of a register with two copies. -/
def FiqRegister.codec : Codec FiqRegister :=
  (u32.pair u32).imap (fun (shared, fiq) => ⟨shared, fiq⟩) (fun r => (r.shared, r.fiq))

/-- The saved form of a processor. -/
def CpuState.codec : Codec CpuState :=
  (vector 16 u32 |>.pair <| vector 5 FiqRegister.codec |>.pair <| vector 6 u32 |>.pair <|
    vector 6 u32 |>.pair <| u32.pair <| vector 6 u32 |>.pair <| vector 2 u32 |>.pair <|
    bool.pair <| u8.pair bool).imap
    (fun (registers, fiqs, sp, lr, cpsr, spsr, pipeline, pipelineValid, accessType, isHalted) =>
      { registers, fiqs, sp, lr, cpsr, spsr, pipeline, pipelineValid, accessType, isHalted })
    (fun s => (s.registers, s.fiqs, s.sp, s.lr, s.cpsr, s.spsr, s.pipeline, s.pipelineValid,
      s.accessType, s.isHalted))

end Handheld
