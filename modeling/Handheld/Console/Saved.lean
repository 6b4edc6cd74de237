import Handheld.Console.Session
import Handheld.Cpu.Saved
import Handheld.EventQueue.Saved

/-!
# Saved sessions

The saved form of a session: the processors, the devices and the clocks. Settings are not saved;
a loaded session keeps those of the one it replaces. Compression is not supported: it is ignored
on saving, and a session that is set to it refuses to load.
-/

namespace Handheld

open Codec

/-- The saved form of the interrupt registers. -/
def InterruptController.codec : Codec InterruptController :=
  (bool.pair <| u32.pair u32).imap
    (fun (master, enabled, raised) => { master, enabled, raised })
    (fun c => (c.master, c.enabled, c.raised))

namespace Console

/-- The saved form of the devices. Settings and the running flag are left out. -/
def System.codec : Codec System :=
  (Memory.codec.pair <| PerProcessor.codec InterruptController.codec |>.pair <|
    PerProcessor.codec Timers.codec |>.pair <| Ipc.codec.pair <| SystemControl.codec.pair <|
    Divider.codec.pair <| SquareRoot.codec.pair <| EventQueue.codec Event.codec).imap
    (fun (memory, interrupts, timers, ipc, control, divider, squareRoot, queue) =>
      { memory, interrupts, timers, ipc, control, divider, squareRoot, queue })
    (fun s => (s.memory, s.interrupts, s.timers, s.ipc, s.control, s.divider, s.squareRoot,
      s.queue))

namespace Session

/-- The saved form of a session. -/
def codec : Codec Session :=
  (PerProcessor.codec CpuState.codec |>.pair <| System.codec.pair <| PerProcessor.codec u64).imap
    (fun (cpus, system, clocks) => { cpus, system, clocks })
    (fun s => (s.cpus, s.system, s.clocks))

/-- Save a session. -/
def save (s : Session) : ByteArray := codec.encode s

/-- Replace a session by a saved one, which takes over the settings. On failure the session stays
as it is. -/
def load (s : Session) (bytes : ByteArray) (log : Log) : Except LoadError Session × Log :=
  let config := s.system.config
  match codec.load bytes config.compressStates with
  | .ok loaded => (.ok { loaded with system := { loaded.system with config } }, log)
  | .error e => (.error e, log.add (.loadFailed e.message))

end Session
end Console
end Handheld
