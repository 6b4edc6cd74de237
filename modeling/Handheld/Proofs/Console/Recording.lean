import Handheld.Console.Session
import Handheld.Proofs.Console.Reading
import Handheld.Proofs.Cpu.InstructionSimulation

/-!
# Recording what a session does

A processor on a system that keeps a record: every write to a device register is noted with the
system before and after it, and nothing else changes. The recording core is the plain core with
its callbacks wrapped, so it runs in lockstep with the plain one (`Monitor.fullSimulation`), and
along the way a property of the system and its record carries over from callback to callback.

* `Happening` is one entry of a record;
* `recordingCore` is a processor on a system with a record;
* `Monitor` is a property of a system and its record that everything a processor does keeps;
* `Session.instructionTrace`, `settleTrace` and `advanceTrace` are the records of what a session
  does.
-/

namespace Handheld.Console

/-- Something that happens to the devices while a session runs. -/
inductive Happening where
  /-- A processor writes a device register. -/
  | wrote (p : Processor) (r : IoRegister) (before after : System)
  /-- An event fires while the queue's clock shows a time. -/
  | fired (event : Fired Event) (now : UInt64)
  /-- All clocks are lowered. -/
  | lowered (amount : UInt64)

/-- A system with a record, oldest entry first. -/
structure Recorded where
  system : System
  record : List Happening := []

namespace Recorded

/-! ## Callbacks -/

/-- The board without the record. -/
def plain (b : Board Recorded) : Board System :=
  { cpu := b.cpu, system := b.system.system, log := b.log }

/-- The board with a record. -/
def withRecord (e : Board System) (record : List Happening) : Board Recorded :=
  { cpu := e.cpu, system := { system := e.system, record }, log := e.log }

/-- An action that is not recorded. -/
def lift {α : Type} (act : BoardM System α) : BoardM Recorded α := fun b =>
  let (a, e) := act (plain b)
  (a, withRecord e b.system.record)

/-- Write a register and record it. -/
def writeRegister (p : Processor) (lanes : Lanes) (r : IoRegister) : BoardM Recorded Unit :=
  fun b =>
    let e := (Console.writeRegister p lanes r (plain b)).2
    ((), withRecord e (b.system.record ++ [.wrote p r b.system.system e.system]))

/-- Write device registers as `Console.writeIoFrom` does, recording each. -/
def writeIoFrom (p : Processor) :
    (left skip : Nat) → (a value mask : UInt32) → BoardM Recorded Unit
  | 0, _, _, _, _ => return
  | left + 1, skip + 1, a, value, mask =>
    writeIoFrom p left skip (a + 1) (value >>> 8) (mask >>> 8)
  | left + 1, 0, a, value, mask => do
    match IoRegister.writableAt? p a with
    | none =>
      lift (BoardM.report (.unknownIoWrite p a value))
      writeIoFrom p left 0 (a + 1) (value >>> 8) (mask >>> 8)
    | some r =>
      writeRegister p (r.lanesAt a value mask) r
      writeIoFrom p left (r.bytesAfter a) (a + 1) (value >>> 8) (mask >>> 8)

/-- Write to a processor's memory map as `Console.write` does, recording writes to registers. -/
def write (p : Processor) (w : Width) (address value : UInt32) : BoardM Recorded Unit := do
  let address := Address.alignDown address w.bytes
  match ← lift (BoardM.ask (·.target p address true)) with
  | .memory region offset =>
    lift <| BoardM.update fun s =>
      { s with memory := s.memory.write region w.bytes.toNat offset value }
  | .io =>
    writeIoFrom p w.bytes.toNat 0 (address &&& 0xFFFFFF) (w.truncate value)
      (w.truncate 0xFFFFFFFF)
  | .stub _ | .unmapped => lift (BoardM.report (.unmappedWrite address))

/-- Copy as `Firmware.copyUnits` does, recording writes to registers. -/
def copyUnits (p : Processor) (w : Width) (fill : Bool) :
    (count : Nat) → (source target : UInt32) → BoardM Recorded Unit
  | 0, _, _ => return
  | count + 1, source, target => do
    let value ← lift (Console.read p w source)
    write p w target value
    copyUnits p w fill count (if fill then source else source + w.bytes) (target + w.bytes)

/-- Copy or fill memory as `Firmware.setMemory` does. -/
def setMemory (p : Processor) (fast : Bool) : BoardM Recorded UInt64 := do
  let source ← lift (Firmware.argument 0)
  let target ← lift (Firmware.argument 1)
  let control ← lift (Firmware.argument 2)
  let w : Width := if fast || Word.isBit control 26 then .word else .half
  let count := Firmware.unitCount control fast
  copyUnits p w (Word.isBit control 24) count.toNat source target
  return count.toUInt64 * 2 + 20

/-- Serve a firmware function. Only the copying ones can write to registers. -/
def serve (p : Processor) : Firmware.Call → BoardM Recorded UInt64
  | .cpuSet => setMemory p false
  | .cpuFastSet => setMemory p true
  | call => lift (Firmware.serve p call)

/-- Serve the software interrupt of a number. -/
def serveNumber (p : Processor) (number : UInt8) : BoardM Recorded UInt64 := do
  match Firmware.Call.of? p number with
  | none =>
    lift (BoardM.report (.unknownBiosCall p number))
    return Firmware.fallbackCycles
  | some call =>
    lift (BoardM.report (.biosCall p call.name))
    serve p call

/-- Serve a software interrupt natively, if the settings say so. -/
def nativeCall (p : Processor) (number : UInt8) : BoardM Recorded (Option UInt64) := do
  if ← lift (BoardM.ask (·.config.nativeFirmware)) then return some (← serveNumber p number)
  else return none

end Recorded

/-- A processor on a system with a record. -/
def recordingCore (p : Processor) : Core Recorded where
  processor := (core p).processor
  read := fun w address => Recorded.lift ((core p).read w address)
  write := Recorded.write p
  waitTime := fun w address access => Recorded.lift ((core p).waitTime w address access)
  interrupts := fun s => (core p).interrupts s.system
  vectorBase := fun s => (core p).vectorBase s.system
  onException := fun x => Recorded.lift ((core p).onException x)
  nativeCall := Recorded.nativeCall p
  controlRead := fun cn cm cp => Recorded.lift ((core p).controlRead cn cm cp)
  controlWrite := fun cn cm cp value => Recorded.lift ((core p).controlWrite cn cm cp value)

/-! ## Properties that a processor keeps -/

/-- The second contents are the first after a store. -/
def Memory.Stored (m m' : Memory) : Prop :=
  ∃ region count offset value, m' = m.write region count offset value

/-- The second registers are the first after a write. -/
def SystemControl.Written (c c' : SystemControl) : Prop :=
  ∃ cn cm cp value, c' = (c.write cn cm cp value).1

/-- A property of a system and its record that everything a processor does keeps. -/
structure Monitor (P : System → List Happening → Prop) : Prop where
  memory : ∀ {s t memory}, s.memory.Stored memory → P s t → P { s with memory } t
  control : ∀ {s t control}, s.control.Written control → P s t → P { s with control } t
  interrupts : ∀ {s t} (interrupts : PerProcessor InterruptController),
    P s t → P { s with interrupts } t
  wrote : ∀ {s t} (p : Processor) (lanes : Lanes) (log : Log) (r : IoRegister), P s t →
    P (s.writeIo p lanes log r).1 (t ++ [.wrote p r s (s.writeIo p lanes log r).1])

/-- An action that keeps a property without a new entry in the record. -/
def Keeps {α : Type} (P : System → List Happening → Prop) (act : BoardM System α) : Prop :=
  ∀ b t, P b.system t → P (act b).2.system t

namespace Keeps

variable {α β : Type} {P : System → List Happening → Prop}

/-- An action that leaves the system as it is. -/
theorem of_system {act : BoardM System α} (h : ∀ b, (act b).2.system = b.system) :
    Keeps P act := by
  intro b t hP
  rw [h]
  exact hP

theorem pure (a : α) : Keeps P (Pure.pure a) := of_system fun _ => rfl

theorem report (entry : LogEntry) : Keeps P (BoardM.report entry) := of_system fun _ => rfl

theorem ask (f : System → α) : Keeps P (BoardM.ask f) := of_system fun _ => rfl

theorem updateCpu (f : CpuState → CpuState) : Keeps P (BoardM.updateCpu f) :=
  of_system fun _ => rfl

theorem argument (r : Register) : Keeps P (Firmware.argument r) := of_system fun _ => rfl

theorem bind {f : BoardM System α} {k : α → BoardM System β} (hf : Keeps P f)
    (hk : ∀ a, Keeps P (k a)) : Keeps P (f >>= k) :=
  fun b t hP => hk (f b).1 (f b).2 t (hf b t hP)

theorem ite {p : Prop} [Decidable p] {f g : BoardM System α} (hf : Keeps P f) (hg : Keeps P g) :
    Keeps P (if p then f else g) := by
  by_cases h : p
  · rw [if_pos h]
    exact hf
  · rw [if_neg h]
    exact hg

theorem of_looks {act : BoardM System α} (h : Looks act) : Keeps P act := of_system h.system

end Keeps

namespace Monitor

variable {α : Type} {P : System → List Happening → Prop}

/-! ### Actions without an entry -/

/-- What a write to the control coprocessor does to the system. -/
theorem system_controlWrite (cn cm cp value : UInt32) (b : Board System) :
    (Console.controlWrite cn cm cp value b).2.system =
      { b.system with control := (b.system.control.write cn cm cp value).1 } := by
  unfold Console.controlWrite
  rw [BoardM.ask_bind]
  obtain ⟨control, effect⟩ := b.system.control.write cn cm cp value
  cases effect <;> rfl

theorem controlWrite (mon : Monitor P) (cn cm cp value : UInt32) :
    Keeps P (controlWrite cn cm cp value) := by
  intro b t hP
  rw [system_controlWrite]
  exact mon.control ⟨cn, cm, cp, value, rfl⟩ hP

theorem waitForInterrupt (mon : Monitor P) (p : Processor) (forget : Bool) (flags : UInt32) :
    Keeps P (Firmware.waitForInterrupt p forget flags) := by
  have hupdate : ∀ f : PerProcessor InterruptController → PerProcessor InterruptController,
      Keeps P (BoardM.update fun s => { s with interrupts := f s.interrupts }) :=
    fun f _ _ hP => mon.interrupts _ hP
  unfold Firmware.waitForInterrupt
  refine (hupdate fun x => x.modify p _).bind fun _ => (Keeps.ask _).bind fun _ => ?_
  refine .ite ((Keeps.report _).bind fun _ => ?_) (.pure _)
  exact (Keeps.updateCpu _).bind fun _ => .pure _

/-- The functions that do not copy write no registers. -/
theorem serve (mon : Monitor P) (p : Processor) {call : Firmware.Call} (hset : call ≠ .cpuSet)
    (hfast : call ≠ .cpuFastSet) : Keeps P (Firmware.serve p call) := by
  cases call with
  | cpuSet => exact absurd rfl hset
  | cpuFastSet => exact absurd rfl hfast
  | waitByLoop =>
    exact (Keeps.argument _).bind fun _ => (Keeps.updateCpu _).bind fun _ => .pure _
  | intrWait =>
    exact (Keeps.argument _).bind fun _ => (Keeps.argument _).bind fun _ =>
      mon.waitForInterrupt p _ _
  | vBlankIntrWait => exact mon.waitForInterrupt p _ _
  | halt | sleep =>
    exact (Keeps.report _).bind fun _ => (Keeps.updateCpu _).bind fun _ => .pure _
  | soundBias => exact .pure _
  | div =>
    refine (Keeps.argument _).bind fun n => (Keeps.argument _).bind fun m => ?_
    refine (Keeps.updateCpu _).bind fun _ => (Keeps.updateCpu _).bind fun _ => ?_
    exact (Keeps.updateCpu _).bind fun _ => .pure _
  | sqrt => exact (Keeps.argument _).bind fun _ => (Keeps.updateCpu _).bind fun _ => .pure _
  | getCrc16 =>
    refine (Keeps.argument _).bind fun crc => (Keeps.argument _).bind fun address => ?_
    refine (Keeps.argument _).bind fun count => ?_
    refine (Keeps.of_looks (looks_checksumFrom p _ _ _)).bind fun result => ?_
    exact (Keeps.updateCpu _).bind fun _ => .pure _
  | isDebugger => exact (Keeps.updateCpu _).bind fun _ => .pure _
  | getSineTable =>
    exact (Keeps.argument _).bind fun _ => (Keeps.updateCpu _).bind fun _ => .pure _

/-! ### The recording core -/

/-- The board with a record stands for the plain one, and the property holds. -/
def Tracks (P : System → List Happening → Prop) (b : Board Recorded) (e : Board System) : Prop :=
  Recorded.plain b = e ∧ P e.system b.system.record

theorem lift {act : BoardM System α} (h : Keeps P act) :
    Agree (Tracks P) (Recorded.lift act) act := by
  intro b e hbe
  obtain ⟨rfl, hP⟩ := hbe
  exact ⟨rfl, rfl, h _ _ hP⟩

/-- What a write to a register does to the system is the same for the power register, which
does nothing. -/
theorem system_writeRegister (p : Processor) (lanes : Lanes) (r : IoRegister) (b : Board System) :
    (Console.writeRegister p lanes r b).2.system = (b.system.writeIo p lanes b.log r).1 := by
  cases r with
  | haltControl =>
    unfold Console.writeRegister
    cases System.powerRequest lanes.raw <;> rfl
  | _ => rfl

theorem writeRegister (mon : Monitor P) (p : Processor) (lanes : Lanes) (r : IoRegister) :
    Agree (Tracks P) (Recorded.writeRegister p lanes r) (Console.writeRegister p lanes r) := by
  intro b e hbe
  obtain ⟨rfl, hP⟩ := hbe
  have hwrote := mon.wrote p lanes (Recorded.plain b).log r hP
  rw [← system_writeRegister] at hwrote
  exact ⟨rfl, rfl, hwrote⟩

theorem writeIoFrom (mon : Monitor P) (p : Processor) (left skip : Nat) (a value mask : UInt32) :
    Agree (Tracks P) (Recorded.writeIoFrom p left skip a value mask)
      (Console.writeIoFrom p left skip a value mask) := by
  induction left generalizing skip a value mask with
  | zero => exact .pure _
  | succ left ih =>
    cases skip with
    | succ skip => exact ih skip _ _ _
    | zero =>
      unfold Recorded.writeIoFrom Console.writeIoFrom
      cases IoRegister.writableAt? p a with
      | none => exact (lift (.report _)).bind fun _ => ih _ _ _ _
      | some r => exact (mon.writeRegister p _ r).bind fun _ => ih _ _ _ _

theorem write (mon : Monitor P) (p : Processor) (w : Width) (address value : UInt32) :
    Agree (Tracks P) (Recorded.write p w address value) (Console.write p w address value) := by
  unfold Recorded.write Console.write
  refine (lift (.ask _)).bind fun target => ?_
  cases target with
  | memory region offset =>
    have hupdate : Keeps P (BoardM.update fun s =>
        { s with memory := s.memory.write region w.bytes.toNat offset value }) :=
      fun _ _ hP => mon.memory ⟨region, w.bytes.toNat, offset, value, rfl⟩ hP
    exact lift hupdate
  | io => exact mon.writeIoFrom p _ _ _ _ _
  | stub offset => exact lift (.report _)
  | unmapped => exact lift (.report _)

theorem copyUnits (mon : Monitor P) (p : Processor) (w : Width) (fill : Bool) (count : Nat)
    (source target : UInt32) :
    Agree (Tracks P) (Recorded.copyUnits p w fill count source target)
      (Firmware.copyUnits p w fill count source target) := by
  induction count generalizing source target with
  | zero => exact .pure _
  | succ count ih =>
    unfold Recorded.copyUnits Firmware.copyUnits
    refine (lift (.of_looks (looks_read p w source))).bind fun value => ?_
    exact (mon.write p w target value).bind fun _ => ih _ _

theorem setMemory (mon : Monitor P) (p : Processor) (fast : Bool) :
    Agree (Tracks P) (Recorded.setMemory p fast) (Firmware.setMemory p fast) := by
  unfold Recorded.setMemory Firmware.setMemory
  refine (lift (.argument _)).bind fun source => (lift (.argument _)).bind fun target => ?_
  refine (lift (.argument _)).bind fun control => ?_
  exact (mon.copyUnits p _ _ _ _ _).bind fun _ => .pure _

theorem recorded_serve (mon : Monitor P) (p : Processor) (call : Firmware.Call) :
    Agree (Tracks P) (Recorded.serve p call) (Firmware.serve p call) := by
  by_cases hset : call = .cpuSet
  · subst hset
    exact mon.setMemory p false
  · by_cases hfast : call = .cpuFastSet
    · subst hfast
      exact mon.setMemory p true
    · have hlift : Recorded.serve p call = Recorded.lift (Firmware.serve p call) := by
        cases call <;> first | rfl | contradiction
      rw [hlift]
      exact lift (mon.serve p hset hfast)

theorem serveNumber (mon : Monitor P) (p : Processor) (number : UInt8) :
    Agree (Tracks P) (Recorded.serveNumber p number) (Firmware.serveNumber p number) := by
  unfold Recorded.serveNumber Firmware.serveNumber
  cases Firmware.Call.of? p number with
  | none => exact (lift (.report _)).bind fun _ => .pure _
  | some call => exact (lift (.report _)).bind fun _ => mon.recorded_serve p call

theorem nativeCall (mon : Monitor P) (p : Processor) (number : UInt8) :
    Agree (Tracks P) (Recorded.nativeCall p number) (nativeCall p number) := by
  unfold Recorded.nativeCall Console.nativeCall
  refine (lift (.ask _)).bind fun native => ?_
  cases native with
  | false => exact .pure _
  | true => exact (mon.serveNumber p number).bind fun _ => .pure _

/-- A processor that records runs in lockstep with the plain one, and a property that everything
a processor does keeps holds all along. -/
theorem fullSimulation (mon : Monitor P) (p : Processor) :
    FullSimulation (recordingCore p) (core p) (Tracks P) where
  processor := rfl
  cpu := by
    intro b e hbe
    obtain ⟨rfl, -⟩ := hbe
    rfl
  move := by
    intro b e s hbe _
    obtain ⟨rfl, hP⟩ := hbe
    exact ⟨rfl, hP⟩
  replace := by
    intro b e s hbe
    obtain ⟨rfl, hP⟩ := hbe
    exact ⟨rfl, hP⟩
  report entry := by
    intro b e hbe
    obtain ⟨rfl, hP⟩ := hbe
    exact ⟨rfl, rfl, hP⟩
  interrupts := by
    intro b e hbe
    obtain ⟨rfl, -⟩ := hbe
    rfl
  vectorBase := by
    intro b e hbe
    obtain ⟨rfl, -⟩ := hbe
    rfl
  read w address := by
    cases p <;> exact lift (.of_looks (looks_read _ w address))
  write w address value := by
    cases p <;> exact mon.write _ w address value
  waitTime w address access := by
    cases p <;> exact lift (.pure _)
  onException x := by
    cases p <;> exact lift (.pure _)
  nativeCall comment := by
    cases p <;> exact mon.nativeCall _ comment
  controlRead cn cm cp := by
    cases p with
    | arm7 => exact lift ((Keeps.report _).bind fun _ => .pure _)
    | arm9 => exact lift (.of_looks (looks_controlRead cn cm cp))
  controlWrite cn cm cp value := by
    cases p with
    | arm7 => exact lift (.report _)
    | arm9 => exact lift (mon.controlWrite cn cm cp value)

/-- A record can be continued. -/
theorem continuing (mon : Monitor P) (t : List Happening) : Monitor fun s u => P s (t ++ u) where
  memory memory hP := mon.memory memory hP
  control control hP := mon.control control hP
  interrupts interrupts hP := mon.interrupts interrupts hP
  wrote p lanes log r hP := by
    rw [← List.append_assoc]
    exact mon.wrote p lanes log r hP

end Monitor

/-! ## Traces of a session -/

namespace Session

/-- A processor of the session with the system around it. -/
def board (p : Processor) (s : Session) (log : Log) : Board System :=
  { cpu := s.cpus.get p, system := s.system, log }

/-- What one step of a processor does. -/
def instructionTrace (p : Processor) (s : Session) (log : Log) : List Happening :=
  ((recordingCore p).step (Recorded.withRecord (s.board p log) [])).2.system.record

/-- What a write to a processor's memory map does. -/
def writeTrace (p : Processor) (w : Width) (address value : UInt32) (s : Session) (log : Log) :
    List Happening :=
  (Recorded.write p w address value (Recorded.withRecord (s.board p log) [])).2.system.record

/-- The events that `settleWithin` fires. -/
def settleTrace : (fuel : Nat) → (target : UInt64) → System → Log → List Happening
  | fuel, target, s, log =>
    match s.queue.popDue target with
    | none => []
    | some (event, queue) =>
      .fired event queue.now ::
        match fuel with
        | 0 => []
        | fuel + 1 =>
          let (s, log) := { s with queue }.dispatch event log
          settleTrace fuel target s log

/-- Either nothing is due and only the clock moves, or the first event fires and the rest
follows. -/
theorem settle_inversion {fuel : Nat} {target : UInt64} {s s' : System} {log log' : Log}
    (h : settleWithin fuel target s log = some (s', log')) :
    (s.queue.popDue target = none ∧
      s' = { s with queue := { s.queue with now := max s.queue.now target } } ∧
      settleTrace fuel target s log = []) ∨
    ∃ left event queue, fuel = left + 1 ∧ s.queue.popDue target = some (event, queue) ∧
      let next := ({ s with queue } : System).dispatch event log
      settleWithin left target next.1 next.2 = some (s', log') ∧
      settleTrace fuel target s log =
        .fired event queue.now :: settleTrace left target next.1 next.2 := by
  unfold settleWithin at h
  cases hpop : s.queue.popDue target with
  | none =>
    rw [hpop] at h
    obtain ⟨rfl, rfl⟩ := Prod.mk.inj (Option.some.inj h)
    refine .inl ⟨rfl, rfl, ?_⟩
    rw [settleTrace, hpop]
  | some popped =>
    rw [hpop] at h
    cases fuel with
    | zero => cases h
    | succ left =>
      refine .inr ⟨left, popped.1, popped.2, rfl, rfl, h, ?_⟩
      rw [settleTrace, hpop]

/-- Everything that happens while events are fired is the firing of an event. -/
theorem eq_fired_of_mem_settleTrace {fuel : Nat} {target : UInt64} {s s' : System}
    {log log' : Log} (returned : settleWithin fuel target s log = some (s', log')) {h : Happening}
    (hmem : h ∈ settleTrace fuel target s log) : ∃ event now, h = .fired event now := by
  induction fuel using Nat.strong_induction_on generalizing s log with
  | _ fuel ih =>
    rcases settle_inversion returned with ⟨-, -, htrace⟩ |
      ⟨left, event, queue, rfl, -, hrest, htrace⟩
    · rw [htrace] at hmem
      cases hmem
    · rw [htrace] at hmem
      rcases List.mem_cons.mp hmem with hhead | htail
      · exact ⟨event, queue.now, hhead⟩
      · exact ih left (Nat.lt_succ_self left) hrest htail

/-- What `advance?` does: a step of the processor that is behind, the events that are then due,
and the lowering of the clocks. -/
def advanceTrace (s : Session) (log : Log) : List Happening :=
  let (stepped, log') := s.stepCpu s.next log
  let target := min stepped.clocks.arm7 stepped.clocks.arm9
  let fuel := eventBound stepped.system.queue target
  s.instructionTrace s.next log ++ settleTrace fuel target stepped.system log' ++
    match settleWithin fuel target stepped.system log' with
    | none => []
    | some (settled, _) => [.lowered settled.queue.rebase.1]

end Session

namespace Monitor

variable {P : System → List Happening → Prop}

theorem instruction (mon : Monitor P) (p : Processor) {s : Session} {t : List Happening}
    (hP : P s.system t) (log : Log) :
    P ((core p).step (s.board p log)).2.system (t ++ s.instructionTrace p log) := by
  have hstart : Tracks (fun s u => P s (t ++ u)) (Recorded.withRecord (s.board p log) [])
      (s.board p log) := by
    refine ⟨rfl, ?_⟩
    show P s.system (t ++ [])
    rwa [List.append_nil]
  exact (((mon.continuing t).fullSimulation p).step hstart).2.2

theorem hostWrite (mon : Monitor P) (p : Processor) (w : Width) (address value : UInt32)
    {s : Session} {t : List Happening} (hP : P s.system t) (log : Log) :
    P (s.write p w address value log).1.system (t ++ s.writeTrace p w address value log) := by
  have hstart : Tracks (fun s u => P s (t ++ u)) (Recorded.withRecord (s.board p log) [])
      (s.board p log) := by
    refine ⟨rfl, ?_⟩
    show P s.system (t ++ [])
    rwa [List.append_nil]
  exact ((mon.continuing t).write p w address value _ _ hstart).2.2

/-- Reading changes nothing in the system. -/
theorem hostRead (p : Processor) (w : Width) (address : UInt32) {s : Session} (log : Log) :
    (s.read p w address log).2.1.system = s.system :=
  (looks_read p w address).system (s.board p log)

end Monitor
end Handheld.Console
