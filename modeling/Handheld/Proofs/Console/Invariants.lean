import Mathlib
import Handheld.Proofs.Console.Runs
import Handheld.Proofs.Console.Windows
import Handheld.Proofs.EventQueue.Operations

/-!
# Invariants of the devices

What can happen to the memories, the control coprocessor, the synchronisation registers and the
queue is little: stores, register writes and queue operations. A property of these that each of
them keeps, and that does not depend on the other devices, holds after whatever happens to a
session. No clock has to be in range for that.
-/

namespace Handheld.Console

/-- A property of the devices that each single change keeps. -/
structure Invariant (P : System → Prop) : Prop where
  memory : ∀ {s memory}, P s → s.memory.Stored memory → P { s with memory }
  bootFlags : ∀ {s}, P s → ∀ bootFlags, P { s with memory := { s.memory with bootFlags } }
  control : ∀ {s control}, P s → s.control.Written control → P { s with control }
  ipc : ∀ {s}, P s → ∀ p lanes, P { s with ipc := (s.ipc.write p lanes).1 }
  scheduled : ∀ {s}, P s → ∀ event ∈ Event.known, ∀ delay,
    P { s with queue := s.queue.schedule event delay }
  /-- What else is done to the queue adds no event. -/
  queue : ∀ {s queue}, P s → s.queue.Operation queue →
    (∀ e ∈ queue.events, ∃ e' ∈ s.queue.events, e'.kind = e.kind) → P { s with queue }
  /-- The other devices, the settings and the running flag do not count. -/
  devices : ∀ {s t}, P s → t.memory = s.memory → t.control = s.control → t.ipc = s.ipc →
    t.queue = s.queue → P t

namespace Invariant

variable {P Q : System → Prop} {s : System}

theorem and (hP : Invariant P) (hQ : Invariant Q) : Invariant fun s => P s ∧ Q s where
  memory h stored := ⟨hP.memory h.1 stored, hQ.memory h.2 stored⟩
  bootFlags h flags := ⟨hP.bootFlags h.1 flags, hQ.bootFlags h.2 flags⟩
  control h written := ⟨hP.control h.1 written, hQ.control h.2 written⟩
  ipc h p lanes := ⟨hP.ipc h.1 p lanes, hQ.ipc h.2 p lanes⟩
  scheduled h event known delay :=
    ⟨hP.scheduled h.1 event known delay, hQ.scheduled h.2 event known delay⟩
  queue h operation kinds := ⟨hP.queue h.1 operation kinds, hQ.queue h.2 operation kinds⟩
  devices h hmemory hcontrol hipc hqueue :=
    ⟨hP.devices h.1 hmemory hcontrol hipc hqueue, hQ.devices h.2 hmemory hcontrol hipc hqueue⟩

variable (inv : Invariant P)

include inv

/-! ## Single changes -/

theorem clock (h : P s) (now : UInt64) : P { s with queue := { s.queue with now } } :=
  inv.queue h (.clock s.queue now) fun e he => ⟨e, he, rfl⟩

theorem pop (h : P s) {target : UInt64} {event : Fired Event} {queue : EventQueue Event}
    (popped : s.queue.popDue target = some (event, queue)) : P { s with queue } := by
  refine inv.queue h (.pop popped) fun e he => ⟨e, ?_, rfl⟩
  rw [EventQueue.events_popDue popped] at he
  exact List.mem_of_mem_tail he

theorem lower (h : P s) : P { s with queue := s.queue.rebase.2 } := by
  refine inv.queue h (.rebase s.queue) fun e he => ?_
  have hkind := List.mem_map_of_mem (f := (·.kind)) he
  rw [EventQueue.kinds_rebase] at hkind
  exact List.mem_map.mp hkind

theorem writeTimerControl (h : P s) (p : Processor) (i : Fin 4) (lanes : Lanes) (log : Log) :
    P (s.writeTimerControl p i lanes log).1 := by
  rw [System.queue_writeTimerControl]
  cases ((s.timers.get p).writeControl i lanes s.queue.now).2 with
  | none => exact inv.devices h rfl rfl rfl rfl
  | some delay =>
    exact inv.devices (inv.scheduled h _ (Event.overflow_known p i) delay) rfl rfl rfl rfl

theorem writeIpc (h : P s) (p : Processor) (lanes : Lanes) : P (s.writeIpc p lanes) := by
  have hipc := inv.ipc h p lanes
  unfold System.writeIpc
  dsimp only
  split
  · exact inv.devices hipc rfl rfl rfl rfl
  · exact hipc

theorem writeIo (h : P s) (p : Processor) (lanes : Lanes) (log : Log) (r : IoRegister) :
    P (s.writeIo p lanes log r).1 := by
  cases r with
  | divisionControl | numerator | denominator =>
    exact inv.devices (inv.scheduled h _ Event.divisionDone_known _) rfl rfl rfl rfl
  | squareRootControl | squareRootInput =>
    exact inv.devices (inv.scheduled h _ Event.squareRootDone_known SquareRoot.latency)
      rfl rfl rfl rfl
  | timerControl i => exact inv.writeTimerControl h p i lanes log
  | ipcSync => exact inv.writeIpc h p lanes
  | timerCounter | interruptMaster | interruptEnable | interruptFlags =>
    exact inv.devices h rfl rfl rfl rfl
  | bootFlag => exact inv.bootFlags h _
  | haltControl | quotient | remainder | squareRootResult => exact h

theorem monitor : Monitor fun s _ => P s where
  memory stored h := inv.memory h stored
  control written h := inv.control h written
  interrupts _ h := inv.devices h rfl rfl rfl rfl
  wrote p lanes log r h := inv.writeIo h p lanes log r

theorem onTimerOverflow (h : P s) (p : Processor) (i : Fin 4) (lateBy : Int64) (log : Log) :
    P (s.onTimerOverflow p i lateBy log).1 := by
  cases hcounts : (s.timers.get p).countsTime i with
  | false => rwa [System.onTimerOverflow_of_not_countsTime s p i lateBy log hcounts]
  | true =>
    rw [System.onTimerOverflow_of_countsTime s p i lateBy log hcounts]
    exact inv.devices (inv.scheduled h _ (Event.overflow_known p i) _) rfl rfl rfl rfl

theorem dispatch (h : P s) (event : Fired Event) (log : Log) : P (s.dispatch event log).1 := by
  obtain ⟨kind, lateBy⟩ := event
  cases kind with
  | pause | divisionDone | squareRootDone => exact inv.devices h rfl rfl rfl rfl
  | timerOverflow timer isArm9 =>
    unfold System.dispatch
    dsimp only
    split
    · exact inv.onTimerOverflow h _ _ lateBy _
    · exact h

theorem settle {fuel : Nat} {target : UInt64} {s' : System} {log log' : Log} (h : P s)
    (returned : Session.settleWithin fuel target s log = some (s', log')) : P s' := by
  induction fuel using Nat.strong_induction_on generalizing s log with
  | _ fuel ih =>
    rcases Session.settle_inversion returned with ⟨-, rfl, -⟩ |
      ⟨left, event, queue, rfl, hpop, hrest, -⟩
    · exact inv.clock h _
    · exact ih left (Nat.lt_succ_self left) (inv.dispatch (inv.pop h hpop) event log) hrest

/-! ## Steps of a session -/

theorem rebase {s : Session} (h : P s.system) : P s.rebase.system := by
  by_cases hlow : s.system.queue.now < EventQueue.rebaseAt
  · rwa [Session.rebase_of_lt hlow]
  · rw [Session.system_rebase_of_le hlow]
    exact inv.devices (inv.lower h) rfl rfl rfl rfl

theorem advance {s s' : Session} {log log' : Log} (h : P s.system)
    (returned : s.advance? log = some (s', log')) : P s'.system := by
  obtain ⟨fuel, settled, log'', hsettle, rfl, -⟩ := Session.advance_parts returned
  have hstepped : P (s.stepCpu s.next log).1.system :=
    inv.monitor.instruction (t := []) s.next h log
  have hsettled : P settled := inv.settle hstepped hsettle
  exact inv.rebase hsettled

theorem boot {s : Session} (h : P s.system) (entry9 entry7 : UInt32) :
    P (s.directBoot entry9 entry7).system := by
  have hdata := inv.control h ⟨9, 1, 0, 0x0300000A, rfl⟩
  have hinst := inv.control hdata ⟨9, 1, 1, 0x20, rfl⟩
  have hcontrol := inv.control hinst ⟨1, 0, 0, 0x00052078, rfl⟩
  exact inv.bootFlags hcontrol ⟨1, 1⟩

theorem prepare {s : Session} (h : P s.system) (cycles : UInt64) (log : Log) :
    P (s.prepare cycles log).system :=
  inv.devices (inv.scheduled h _ Event.pause_known cycles.toInt64) rfl rfl rfl rfl

/-- Whatever happens to a session keeps an invariant of its devices. -/
theorem step {s s' : Session} {t : List Happening} (h : P s.system) (step : s.Step t s') :
    P s'.system := by
  cases step with
  | advance returned => exact inv.advance h returned
  | instruction p log => exact inv.monitor.instruction (t := []) p h log
  | read p w address log => rwa [Monitor.hostRead]
  | write p w address value log =>
    exact inv.monitor.hostWrite (t := []) p w address value h log
  | interrupt p i => exact inv.devices h rfl rfl rfl rfl
  | replaceCpu p cpu => exact h
  | boot entry9 entry7 => exact inv.boot h entry9 entry7
  | prepare cycles log => exact inv.prepare h cycles log

end Invariant

/-! ## At any time -/

namespace Session

/-- The sessions that a console can come to, whatever the clocks are. It may also load what it has
saved. -/
inductive Attained : Session → Prop
  | new (config : Config) : Attained (new config)
  | step {s s' : Session} {t : List Happening} (attained : Attained s) (step : Step s t s') :
    Attained s'
  | restored {saved current : Session} (attained : Attained saved) (other : Attained current) :
    Attained (saved.restored current)

end Session

/-- What holds of the devices at first and is kept by each single change holds at any time. -/
theorem Invariant.attained {P : System → Prop} (inv : Invariant P)
    (initial : ∀ config, P { config }) {s : Session} (h : s.Attained) : P s.system := by
  induction h with
  | new config => exact initial config
  | step _ step ih => exact inv.step ih step
  | restored _ _ ih _ => exact inv.devices ih rfl rfl rfl rfl

/-! ## What the devices keep -/

/-- No store changes the size of a memory. -/
theorem Memory.size_write (m : Memory) (region : Region) (count offset : Nat) (value : UInt32)
    (r : Region) : ((m.write region count offset value).bytes r).size = (m.bytes r).size := by
  cases region with
  | main | shared | work =>
    cases r <;> first | rfl | exact Bytes.size_setValue _ _ _ _
  | instTcm | dataTcm =>
    cases r <;> first | rfl | exact Bytes.size_setValue _ _ _ _

/-- The sizes of the memories stay. -/
theorem invariant_sizes (sizes : Region → Nat) :
    Invariant fun s => ∀ r, (s.memory.bytes r).size = sizes r where
  memory := by
    rintro s memory h ⟨region, count, offset, value, rfl⟩ r
    rw [Memory.size_write]
    exact h r
  bootFlags h _ r := by
    have hr := h r
    cases r <;> exact hr
  control h _ := h
  ipc h _ _ := h
  scheduled h _ _ _ := h
  queue h _ _ := h
  devices h hmemory _ _ _ := by
    rw [hmemory]
    exact h

/-- Only events that the console knows wait. -/
theorem invariant_known : Invariant fun s => ∀ e ∈ s.queue.events, e.kind ∈ Event.known where
  memory h _ := h
  bootFlags h _ := h
  control h _ := h
  ipc h _ _ := h
  scheduled h event known delay e he := by
    rcases EventQueue.kind_or_mem_of_mem_schedule he with hkind | hold
    · rwa [hkind]
    · exact h e hold
  queue h _ kinds e he := by
    obtain ⟨e', he', hkind⟩ := kinds e he
    rw [← hkind]
    exact h e' he'
  devices h _ _ _ hqueue := by
    rw [hqueue]
    exact h

/-- The windows stay the ones that the registers describe. -/
theorem invariant_settled : Invariant fun s => s.control.Settled where
  memory h _ := h
  bootFlags h _ := h
  control := by
    rintro s control h ⟨cn, cm, cp, value, rfl⟩
    exact SystemControl.Settled.write h cn cm cp value
  ipc h _ _ := h
  scheduled h _ _ _ := h
  queue h _ _ := h
  devices h _ hcontrol _ _ := by
    rw [hcontrol]
    exact h

end Handheld.Console
