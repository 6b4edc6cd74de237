import Handheld.Cpu.Mode

/-!
# Interrupts and exceptions

The sources of interrupts with their places in the interrupt registers, the interrupt controller
of one processor, and the exceptions with their vectors.
-/

namespace Handheld

open Word

/-- A source of interrupts, in the order of the bits of the interrupt registers. -/
inductive Interrupt where
  | vBlank | hBlank | vCounter | timer0 | timer1 | timer2 | timer3 | serial
  | dma0 | dma1 | dma2 | dma3 | joypad | gamePak | unused1 | unused2
  | ipcSync | ipcSendFifoEmpty | ipcRecvFifoNotEmpty | cardTransferComplete | cardIreqMc
  | geometryFifo | screensOpen | spiBus | wifi
  deriving DecidableEq, Repr

namespace Interrupt

/-- All sources, by their bit. -/
def all : List Interrupt :=
  [vBlank, hBlank, vCounter, timer0, timer1, timer2, timer3, serial, dma0, dma1, dma2, dma3,
    joypad, gamePak, unused1, unused2, ipcSync, ipcSendFifoEmpty, ipcRecvFifoNotEmpty,
    cardTransferComplete, cardIreqMc, geometryFifo, screensOpen, spiBus, wifi]

/-- The source's bit in the interrupt registers. -/
def bit (i : Interrupt) : Nat := i.ctorIdx

/-- The interrupt of a timer. -/
def timer : Fin 4 → Interrupt
  | 0 => timer0
  | 1 => timer1
  | 2 => timer2
  | 3 => timer3

@[simp] theorem bit_timer (i : Fin 4) : (timer i).bit = 3 + i.val := by
  match i with
  | 0 | 1 | 2 | 3 => rfl

end Interrupt

/-- The interrupt registers of one processor. -/
structure InterruptController where
  /-- Whether interrupts are taken at all. -/
  master : Bool := false
  /-- The interrupts that are let through. -/
  enabled : UInt32 := 0
  /-- The interrupts that were raised. -/
  raised : UInt32 := 0
  deriving DecidableEq, Repr, Inhabited

namespace InterruptController

/-- Raise an interrupt. -/
def request (c : InterruptController) (i : Interrupt) : InterruptController :=
  { c with raised := setBit c.raised i.bit true }

/-- Whether an interrupt that is let through was raised. This wakes a halted processor, whatever
the master switch says. -/
def isPending (c : InterruptController) : Bool := c.enabled &&& c.raised != 0

/-- Whether the processor is to take an interrupt, unless it masks them itself. -/
def shouldInterrupt (c : InterruptController) : Bool := c.master && c.isPending

/-- Lower the interrupts whose bits are set. -/
def acknowledge (c : InterruptController) (acknowledged : UInt32) : InterruptController :=
  { c with raised := c.raised &&& ~~~acknowledged }

end InterruptController

/-- An exception, in the order of the vectors. Only software interrupts and interrupt requests
are ever raised. -/
inductive Exception where
  | reset | undefined | softwareInterrupt | prefetchAbort | dataAbort | addressExceeded
  | interruptRequest | fastInterruptRequest
  deriving DecidableEq, Repr

namespace Exception

/-- Where the exception's vector lies above the vector base. -/
def vector (e : Exception) : UInt32 := UInt32.ofNat e.ctorIdx * 4

/-- The mode in which the exception is handled. -/
def mode : Exception → Mode
  | reset | softwareInterrupt | addressExceeded => .supervisor
  | undefined => .undefined
  | prefetchAbort | dataAbort => .abort
  | interruptRequest => .irq
  | fastInterruptRequest => .fiq

/-- Whether the exception masks fast interrupts, too. -/
def masksFast (e : Exception) : Bool := e == reset || e == fastInterruptRequest

end Exception
end Handheld
