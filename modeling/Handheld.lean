import Handheld.Hex
import Handheld.EventQueue.FollowUp
import Handheld.EventQueue.Saved
import Handheld.Cpu.Saved
import Handheld.Cpu.Interrupt
import Handheld.Cpu.Arithmetic
import Handheld.Cpu.Shifter
import Handheld.Cpu.Core
import Handheld.Cpu.BlockTransfer
import Handheld.Arm.Decode
import Handheld.Arm.Listing
import Handheld.Thumb.Listing
import Handheld.Cpu.Step
import Handheld.Log.Text
import Handheld.FlatMemory
import Handheld.Console.Saved
import Handheld.Proofs.Cpu.RegisterFile
import Handheld.Proofs.Cpu.Confinement
import Handheld.Proofs.EventQueue.Refinement
import Handheld.Proofs.Console.FreeRunningTimer
import Handheld.Proofs.Cpu.BlockInstructions
import Handheld.Proofs.Cpu.RegisterStacks
import Handheld.Proofs.Cpu.SingleTransfers
import Handheld.Proofs.Cpu.ShiftSteps
import Handheld.Proofs.Cpu.ExactProducts
import Handheld.Proofs.Cpu.MultiplierTiming
import Handheld.Proofs.Arm.Chart
import Handheld.Proofs.Console.Skipping
import Handheld.Proofs.Cpu.Prefetch
import Handheld.Proofs.Cpu.InterruptReturn
import Handheld.Proofs.Thumb.Equivalence
import Handheld.Proofs.Console.Callbacks
import Handheld.Proofs.Console.Saving
import Handheld.Proofs.Console.MemoryMap
import Handheld.Proofs.Console.Loading
import Handheld.Proofs.Console.ReadsByLanes
import Handheld.Proofs.Console.Isolation
import Handheld.Proofs.Console.ProgrammedWindows
import Handheld.Proofs.Console.NativeCalls
import Handheld.Proofs.Console.InterruptStub
import Handheld.Proofs.Console.Rebasing
import Handheld.Proofs.Console.PendingEvents
import Handheld.Proofs.Console.Rewriting
import Handheld.Proofs.Cpu.Calls
import Handheld.Proofs.Console.Checksum
import Handheld.Proofs.Console.Synchronisation
import Handheld.Proofs.Console.Cascades
import Handheld.Proofs.Console.MemoryCopies
import Handheld.Proofs.EventQueue.Draining
import Handheld.Proofs.Arm.Listings
import Handheld.Proofs.Checked.Steps
import Handheld.Proofs.Checked.Sessions
