import Mathlib
import Handheld.Proofs.Console.SplitWrites

/-!
# What a processor has for itself

Both processors write to their devices through the same functions, into one system and one event
queue. Yet whatever the one reads and writes, what the other has for itself stays as it is: its
state, its timers, its interrupt registers but for the one interrupt that the processors send each
other, its boot flag, the memories and units that it alone reaches, and the events that wait for
them. The main result is `Session.private_state_kept`.
-/

namespace Handheld.Console

open IoRegister Word

/-! ## Private state -/

/-- Whether an event is one of a processor's own units, or the end of the run. -/
def Event.concerns (q : Processor) : Event → Bool
  | .pause => true
  | .timerOverflow _ isArm9 => isArm9 == (q == .arm9)
  | .divisionDone | .squareRootDone => q == .arm9

/-- The processor that alone has a memory, if it is not for both. -/
def Region.owner? : Region → Option Processor
  | .main | .shared => none
  | .work => some .arm7
  | .instTcm | .dataTcm => some .arm9

/-- The processor that alone has the memory to which an access leads. -/
def Target.owner? : Target → Option Processor
  | .memory region _ => region.owner?
  | .stub _ | .io | .unmapped => none

/-- The memories and units that only one of the processors has. -/
inductive OwnUnits where
  | companion (work : ByteArray)
  | main (control : SystemControl) (divider : Divider) (squareRoot : SquareRoot)
      (instTcm : Block instTcmSize) (dataTcm : Block dataTcmSize)

/-- What a processor has for itself in the system. Of its interrupts the one does not count that
the other processor sends. -/
structure PrivateDevices where
  timers : Timers
  /-- What the timers' counters read. -/
  counters : Fin 4 → UInt16
  master : Bool
  enabled : UInt32
  raised : UInt32
  bootFlag : UInt8
  units : OwnUnits
  /-- The events that wait, with their times. -/
  events : List (Pending Event)

namespace System

/-- The memories and units of a processor alone. -/
def ownUnits (s : System) : Processor → OwnUnits
  | .arm7 => .companion s.memory.work
  | .arm9 => .main s.control s.divider s.squareRoot s.memory.instTcm s.memory.dataTcm

/-- What a processor has for itself. -/
def privateDevices (s : System) (q : Processor) : PrivateDevices where
  timers := s.timers.get q
  counters := fun i => (s.timers.get q).read i s.queue.now
  master := (s.interrupts.get q).master
  enabled := (s.interrupts.get q).enabled
  raised := setBit (s.interrupts.get q).raised Interrupt.ipcSync.bit false
  bootFlag := s.memory.bootFlags.get q
  units := s.ownUnits q
  events := s.queue.events.filter (·.kind.concerns q)

/-! ## Device registers -/

section Registers

variable {s : System} {p q : Processor}

/-- Scheduling an event that is none of a processor's leaves alone those that are, and the clock. -/
theorem privateDevices_schedule {event : Event} (h : event.concerns q = false) (delay : Int64) :
    { s with queue := s.queue.schedule event delay }.privateDevices q = s.privateDevices q := by
  have hevents : (s.queue.schedule event delay).events.filter (·.kind.concerns q) =
      s.queue.events.filter (·.kind.concerns q) := by
    apply EventQueue.filter_schedule
    intro e he
    rw [he]
    exact h
  unfold privateDevices
  dsimp only
  rw [hevents, EventQueue.now_schedule]
  cases q <;> rfl

/-- The synchronisation interrupt does not count, whoever gets it. -/
theorem privateDevices_raise_ipcSync (s : System) (p q : Processor) :
    (s.raise p .ipcSync).privateDevices q = s.privateDevices q := by
  have hraised : setBit ((s.raise p .ipcSync).interrupts.get q).raised Interrupt.ipcSync.bit false =
      setBit (s.interrupts.get q).raised Interrupt.ipcSync.bit false := by
    cases p <;> cases q
    case arm7.arm9 | arm9.arm7 => rfl
    case arm7.arm7 | arm9.arm9 => exact setBit_setBit _ true false (by decide)
  unfold privateDevices
  rw [hraised]
  cases p <;> cases q <;> rfl

theorem privateDevices_writeIpc (l : Lanes) :
    (s.writeIpc p l).privateDevices p.other = s.privateDevices p.other := by
  unfold writeIpc
  have hipc : ∀ ipc, { s with ipc }.privateDevices p.other = s.privateDevices p.other := by
    intro ipc
    cases p <;> rfl
  dsimp only
  split
  · exact (privateDevices_raise_ipcSync _ _ _).trans (hipc _)
  · exact hipc _

theorem privateDevices_writeTimerControl (i : Fin 4) (l : Lanes) (log : Log) :
    (s.writeTimerControl p i l log).1.privateDevices p.other = s.privateDevices p.other := by
  rw [queue_writeTimerControl]
  have htimers : ∀ timers, { s with timers := s.timers.set p timers }.privateDevices p.other =
      s.privateDevices p.other := by
    intro timers
    cases p <;> rfl
  have hevent : (overflowEvent p i).concerns p.other = false := by cases p <;> rfl
  cases ((s.timers.get p).writeControl i l s.queue.now).2 with
  | none => exact htimers _
  | some delay => exact (privateDevices_schedule hevent delay).trans (htimers _)

/-- The math units are the main processor's. -/
theorem eq_arm9_of_math {r : IoRegister} (hr : r ∈ all p) (hmath : r ∈ mathRegisters) :
    p = .arm9 := by
  have hlacks : ∀ r ∈ mathRegisters, r ∉ all .arm7 := by decide
  cases p with
  | arm7 => exact absurd hr (hlacks r hmath)
  | arm9 => rfl

/-- A write to one of its registers leaves a processor what the other one has for itself. -/
theorem privateDevices_writeIo {r : IoRegister} (hr : r ∈ all p) (l : Lanes) (log : Log) :
    (s.writeIo p l log r).1.privateDevices p.other = s.privateDevices p.other := by
  cases r with
  | divisionControl | squareRootControl =>
    obtain rfl := eq_arm9_of_math hr (by decide)
    exact privateDevices_schedule rfl _
  | numerator high | denominator high | squareRootInput high =>
    obtain rfl := eq_arm9_of_math hr (by cases high <;> decide)
    exact privateDevices_schedule rfl _
  | timerControl i => exact privateDevices_writeTimerControl i l log
  | ipcSync => exact privateDevices_writeIpc l
  | haltControl | quotient | remainder | squareRootResult => rfl
  | timerCounter | interruptMaster | interruptEnable | interruptFlags | bootFlag =>
    cases p <;> rfl

/-! ### Reads -/

/-- What a processor has for itself tells what its registers read, but for the two that the other
one has a part in. -/
theorem ioValue_of_privateDevices {s t : System} (h : t.privateDevices q = s.privateDevices q)
    {r : IoRegister} (hr : r ∈ all q) (hsync : r ≠ .ipcSync) (hflags : r ≠ .interruptFlags) :
    t.ioValue q r = s.ioValue q r := by
  have htimers : t.timers.get q = s.timers.get q := congrArg PrivateDevices.timers h
  have hboot : t.memory.bootFlags.get q = s.memory.bootFlags.get q :=
    congrArg PrivateDevices.bootFlag h
  have hmath : r ∈ mathRegisters → t.divider = s.divider ∧ t.squareRoot = s.squareRoot := by
    intro hmath
    obtain rfl := eq_arm9_of_math hr hmath
    obtain ⟨-, hdivider, hroot, -⟩ := OwnUnits.main.inj (congrArg PrivateDevices.units h)
    exact ⟨hdivider, hroot⟩
  unfold ioValue
  cases r with
  | divisionControl => rw [(hmath (by decide)).1]
  | numerator high | denominator high | quotient high | remainder high =>
    rw [(hmath (by cases high <;> decide)).1]
  | squareRootControl | squareRootResult => rw [(hmath (by decide)).2]
  | squareRootInput high => rw [(hmath (by cases high <;> decide)).2]
  | haltControl => rfl
  | timerCounter i =>
    exact congrArg UInt16.toUInt32 (congrFun (congrArg PrivateDevices.counters h) i)
  | timerControl i => rw [htimers]
  | ipcSync => exact absurd rfl hsync
  | interruptMaster => exact congrArg (·.master.toNat.toUInt32) h
  | interruptEnable => exact congrArg PrivateDevices.enabled h
  | interruptFlags => exact absurd rfl hflags
  | bootFlag => rw [hboot]

end Registers

/-! ## Writes to the memory map -/

section Map

variable {s : System} {p q : Processor} {region : Region}

theorem owner_busTarget (address : UInt32) : (busTarget p address).owner? ≠ some p.other := by
  have hshared : none ≠ some p.other := nofun
  have hwork : some Processor.arm7 ≠ some Processor.arm9 := by decide
  unfold busTarget
  split
  -- Of the memories on the bus only the companion processor's work memory is not for both.
  case h_3 =>
    split
    · exact hshared
    · exact hwork
  case h_6 => split <;> exact hshared
  all_goals exact hshared

/-- No address leads a processor to a memory that the other one has for itself. -/
theorem owner_target (s : System) (address : UInt32) (write : Bool) :
    (s.target p address write).owner? ≠ some p.other := by
  cases p with
  | arm7 => exact owner_busTarget address
  | arm9 =>
    have hcoupled : some Processor.arm9 ≠ some Processor.arm7 := by decide
    unfold target
    dsimp only
    split
    · exact hcoupled
    · split
      · exact hcoupled
      · exact owner_busTarget address

/-- A write to a memory that is not the other processor's alone. -/
theorem privateDevices_writeMemory (h : region.owner? ≠ some q)
    (count offset : Nat) (value : UInt32) :
    { s with memory := s.memory.write region count offset value }.privateDevices q =
      s.privateDevices q := by
  cases region with
  | main | shared => cases q <;> rfl
  | work =>
    cases q with
    | arm7 => exact absurd rfl h
    | arm9 => rfl
  | instTcm | dataTcm =>
    cases q with
    | arm7 => rfl
    | arm9 => exact absurd rfl h

end Map

end System

section Effects

variable {p : Processor} {x : Parts}

theorem privateDevices_ioEffect (left skip : Nat) (a value mask : UInt32) :
    (ioEffect p left skip a value mask x).2.privateDevices p.other =
      x.2.privateDevices p.other := by
  induction left generalizing skip a value mask x with
  | zero => rfl
  | succ left ih =>
    cases skip with
    | succ skip => exact ih skip _ _ _
    | zero =>
      cases hr : writableAt? p a with
      | none =>
        rw [ioEffect_none hr]
        exact ih 0 _ _ _
      | some r =>
        obtain ⟨hmem, -⟩ := writableAt?_eq_some_iff.mp hr
        rw [ioEffect_some hr, ih]
        exact System.privateDevices_writeIo hmem _ _

theorem privateDevices_writeEffect (w : Width) (address value : UInt32) :
    (writeEffect p w address value x).2.privateDevices p.other = x.2.privateDevices p.other := by
  unfold writeEffect
  cases htarget : x.2.target p (Address.alignDown address w.bytes) true with
  | memory region offset =>
    have howner := x.2.owner_target (p := p) (Address.alignDown address w.bytes) true
    rw [htarget] at howner
    exact System.privateDevices_writeMemory howner _ _ _
  | io => exact privateDevices_ioEffect ..
  | stub | unmapped => rfl

end Effects

/-! ## Accesses one after the other -/

namespace Session

/-- An access to a processor's memory map. -/
inductive BusAccess where
  | read (w : Width) (address : UInt32)
  | write (w : Width) (address value : UInt32)

/-- Let a processor make an access, whatever it reads. -/
def access (p : Processor) (s : Session) (log : Log) : BusAccess → Session × Log
  | .read w address => (s.read p w address log).2
  | .write w address value => s.write p w address value log

/-- Let a processor make accesses, one after the other. -/
def accesses (p : Processor) : List BusAccess → Session → Log → Session × Log
  | [], s, log => (s, log)
  | a :: rest, s, log =>
    let (s, log) := s.access p log a
    accesses p rest s log

/-- What a processor has for itself: its state and clock, and its part of the system. -/
def privateState (s : Session) (q : Processor) : CpuState × UInt64 × PrivateDevices :=
  (s.cpus.get q, s.clocks.get q, s.system.privateDevices q)

theorem privateState_access (p : Processor) (s : Session) (log : Log) (a : BusAccess) :
    (s.access p log a).1.privateState p.other = s.privateState p.other := by
  cases a with
  | read w address =>
    unfold access
    dsimp only
    rw [read_fst]
  | write w address value =>
    have hsystem := privateDevices_writeEffect (p := p) (x := s.partsOf p) w address value
    unfold access
    dsimp only
    rw [write_fst]
    unfold privateState withParts
    dsimp only
    rw [PerProcessor.get_set_other, hsystem]
    rfl

theorem privateState_accesses (s : Session) (p : Processor) (list : List BusAccess) (log : Log) :
    (s.accesses p list log).1.privateState p.other = s.privateState p.other := by
  induction list generalizing s log with
  | nil => rfl
  | cons a rest ih => exact (ih _ _).trans (privateState_access p s log a)

/-- **Neither processor reaches what the other has for itself.** Take any session and let one
processor read and write its memory map in any way. The other processor keeps its state and its
clock, its timers and what their counters read, its interrupt registers apart from the
synchronisation interrupt, its boot flag, the memories and units that are its alone and the events
that wait for them, with their times and their order. So do its registers read what they read
before, but for the synchronisation register and the interrupts that were raised. -/
theorem private_state_kept (p : Processor) (list : List BusAccess) (s : Session) (log : Log) :
    (s.accesses p list log).1.privateState p.other = s.privateState p.other ∧
      ∀ r ∈ all p.other, r ≠ .ipcSync → r ≠ .interruptFlags →
        (s.accesses p list log).1.system.ioValue p.other r = s.system.ioValue p.other r := by
  have hkept := s.privateState_accesses p list log
  refine ⟨hkept, fun r hr hsync hflags => ?_⟩
  have hdevices : (s.accesses p list log).1.system.privateDevices p.other =
      s.system.privateDevices p.other := congrArg (·.2.2) hkept
  exact System.ioValue_of_privateDevices hdevices hr hsync hflags

-- The one interrupt does reach the other processor, once that permits it.
example :
    let permitted := ((Session.new {}).write .arm9 .half 0x04000180 0x4000 {}).1
    let sent := (permitted.write .arm7 .half 0x04000180 0x2000 {}).1
    (sent.system.interrupts.get .arm9).raised = 0x10000 := by decide

end Session
end Handheld.Console
