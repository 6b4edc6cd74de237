import Handheld.Cpu.State
import Handheld.Processor

/-!
# Firmware stubs

The little code that is mapped where the firmware would be. A software interrupt returns at once;
an interrupt request saves the registers that a call may change, calls the handler that the
program has installed, and returns. The companion processor finds the handler's address at the
end of its work memory, the main processor at the end of its data memory.
-/

namespace Handheld.Console.Firmware

/-- The words of a processor's stub. -/
def stub : Processor → Array UInt32
  | .arm7 =>
    #[0, 0,
      0xE1B0F00E, -- movs pc, lr
      0, 0, 0,
      0xE92D500F, -- stmdb sp!, r0 r1 r2 r3 r12 lr
      0xE3A00301, -- mov r0, $0x4000000
      0xE28FE000, -- add lr, pc, $0x0
      0xE510F004, -- ldr pc, [r0, $-0x4]
      0xE8BD500F, -- ldmia sp!, r0 r1 r2 r3 r12 lr
      0xE25EF004] -- subs pc, lr, $0x4
  | .arm9 =>
    #[0, 0,
      0xE1B0F00E, -- movs pc, lr
      0, 0, 0,
      0xE92D500F, -- stmdb sp!, r0 r1 r2 r3 r12 lr
      0xEE190F11, -- mrc p15, 0, r0, c9, c1, 0
      0xE1A00620, -- mov r0, r0 lsr $12
      0xE1A00600, -- mov r0, r0 lsl $12
      0xE2800901, -- add r0, r0, $0x4000
      0xE28FE000, -- add lr, pc, $0x0
      0xE510F004, -- ldr pc, [r0, $-0x4]
      0xE8BD500F, -- ldmia sp!, r0 r1 r2 r3 r12 lr
      0xE25EF004] -- subs pc, lr, $0x4

/-- The bytes of a stub from an offset on, lowest first, up to the end of their word. What lies
behind the stub reads as zero. -/
def stubRead (p : Processor) (offset : UInt32) : UInt32 :=
  (stub p)[(offset >>> 2).toNat]?.getD 0 >>> ((offset &&& 3) * 8)

/-- The stack pointers that the firmware leaves behind. -/
structure BootStacks where
  system : UInt32
  irq : UInt32
  supervisor : UInt32
  deriving DecidableEq, Repr

/-- The stack pointers of each processor. -/
def bootStacks : Processor → BootStacks
  | .arm7 => { system := 0x0380FD80, irq := 0x0380FF80, supervisor := 0x0380FFC0 }
  | .arm9 => { system := 0x03002F7C, irq := 0x03003F80, supervisor := 0x03003FC0 }

/-- A processor as the firmware leaves it behind when it starts a program: in system mode, with
interrupts let through, at the entry point. -/
def bootState (p : Processor) (entry : UInt32) : CpuState :=
  let pointers := bootStacks p
  ({} : CpuState)
    |>.setRegInMode .irq Register.sp pointers.irq
    |>.setRegInMode .supervisor Register.sp pointers.supervisor
    |>.setCpsr Mode.system.toBits
    |>.setReg Register.sp pointers.system
    |>.startAt entry

end Handheld.Console.Firmware
