import Handheld.Proofs.Console.Callbacks

/-!
# Systems in lockstep

Two systems may differ in something that no access shows: in the settings, or in the time that
their clocks started from. `Lockstep` lists what a relation between systems has to satisfy so that
the difference never shows to a processor: the memories, the control coprocessor and the interrupt
registers are the same, every device register reads alike, and every write to one keeps the
relation and reports alike. Processors on related systems then do the same in every access and in
every function of the firmware.
-/

namespace Handheld.Console

open BoardM

/-- A relation between systems that no access can tell apart, and that accesses keep. -/
structure Lockstep (R : System → System → Prop) : Prop where
  memory : ∀ {s t}, R s t → t.memory = s.memory
  control : ∀ {s t}, R s t → t.control = s.control
  interrupts : ∀ {s t}, R s t → t.interrupts = s.interrupts
  withMemory : ∀ {s t}, R s t → ∀ memory, R { s with memory } { t with memory }
  withInterrupts : ∀ {s t}, R s t → ∀ interrupts, R { s with interrupts } { t with interrupts }
  ioValue : ∀ {s t}, R s t → ∀ p r, t.ioValue p r = s.ioValue p r
  writeIo : ∀ {s t}, R s t → ∀ p lanes log r,
    (s.writeIo p lanes log r).2 = (t.writeIo p lanes log r).2 ∧
      R (s.writeIo p lanes log r).1 (t.writeIo p lanes log r).1

/-- Boards that differ in their systems only, and these are related. -/
structure Paired (R : System → System → Prop) (b e : Board System) : Prop where
  cpu : b.cpu = e.cpu
  system : R b.system e.system
  log : b.log = e.log

variable {R : System → System → Prop}

/-! ## Single actions -/

theorem agree_ask {α : Type} {f g : System → α} (h : ∀ {s t}, R s t → g t = f s) :
    Agree (Paired R) (ask f) (ask g) := fun _ _ hpair => ⟨(h hpair.system).symm, hpair⟩

theorem agree_update {f g : System → System} (h : ∀ {s t}, R s t → R (f s) (g t)) :
    Agree (Paired R) (update f) (update g) :=
  fun _ _ hpair => ⟨rfl, hpair.cpu, h hpair.system, hpair.log⟩

theorem agree_updateCpu (f : CpuState → CpuState) :
    Agree (Paired R) (updateCpu f) (updateCpu f) :=
  fun _ _ hpair => ⟨rfl, congrArg f hpair.cpu, hpair.system, hpair.log⟩

theorem agree_report (entry : LogEntry) : Agree (Paired R) (report entry) (report entry) :=
  fun _ _ hpair => ⟨rfl, hpair.cpu, hpair.system, congrArg (·.add entry) hpair.log⟩

theorem agree_argument (r : Register) :
    Agree (Paired R) (Firmware.argument r) (Firmware.argument r) := by
  intro b e hpair
  refine ⟨?_, hpair⟩
  show b.cpu.reg r = e.cpu.reg r
  rw [hpair.cpu]

theorem agree_result (r : Register) (value : UInt32) :
    Agree (Paired R) (Firmware.result r value) (Firmware.result r value) := agree_updateCpu _

theorem agree_halt : Agree (Paired R) Firmware.halt Firmware.halt := agree_updateCpu _

/-- A write to any register but the power register acts on the system alone. -/
theorem writeRegister_of_ne (p : Processor) (lanes : Lanes) {r : IoRegister}
    (hr : r ≠ .haltControl) :
    writeRegister p lanes r = fun b =>
      ((), { b with
        system := (b.system.writeIo p lanes b.log r).1
        log := (b.system.writeIo p lanes b.log r).2 }) := by
  cases r <;> first | rfl | contradiction

namespace Lockstep

variable (h : Lockstep R)

include h

/-! ## Device registers -/

theorem readIoFrom (p : Processor) (left skip : Nat) (a shift total : UInt32) :
    Agree (Paired R) (Console.readIoFrom p left skip a shift total)
      (Console.readIoFrom p left skip a shift total) := by
  induction left generalizing skip a shift total with
  | zero => exact .pure total
  | succ left ih =>
    cases skip with
    | succ skip => exact ih skip _ _ _
    | zero =>
      unfold Console.readIoFrom
      cases IoRegister.at? p a with
      | none => exact (agree_report _).bind fun _ => ih _ _ _ _
      | some r =>
        have hvalue : Agree (Paired R) (ask (·.ioValue p r)) (ask (·.ioValue p r)) :=
          agree_ask fun hR => h.ioValue hR p r
        exact hvalue.bind fun _ => ih _ _ _ _

theorem writeRegister (p : Processor) (lanes : Lanes) (r : IoRegister) :
    Agree (Paired R) (Console.writeRegister p lanes r) (Console.writeRegister p lanes r) := by
  by_cases hr : r = .haltControl
  · subst hr
    unfold Console.writeRegister
    cases System.powerRequest lanes.raw with
    | none => exact .pure ()
    | halt | sleep _ => exact (agree_report _).bind fun _ => agree_updateCpu _
  · rw [writeRegister_of_ne p lanes hr]
    rintro ⟨cpu, s, log⟩ ⟨_, t, _⟩ ⟨rfl, hR, rfl⟩
    obtain ⟨hlog, hsystem⟩ := h.writeIo hR p lanes log r
    exact ⟨rfl, rfl, hsystem, hlog⟩

theorem writeIoFrom (p : Processor) (left skip : Nat) (a value mask : UInt32) :
    Agree (Paired R) (Console.writeIoFrom p left skip a value mask)
      (Console.writeIoFrom p left skip a value mask) := by
  induction left generalizing skip a value mask with
  | zero => exact .pure ()
  | succ left ih =>
    cases skip with
    | succ skip => exact ih skip _ _ _
    | zero =>
      unfold Console.writeIoFrom
      cases IoRegister.writableAt? p a with
      | none => exact (agree_report _).bind fun _ => ih _ _ _ _
      | some r => exact (h.writeRegister p _ r).bind fun _ => ih _ _ _ _

/-! ## Accesses -/

theorem target (p : Processor) (address : UInt32) (isWrite : Bool) :
    Agree (Paired R) (ask (·.target p address isWrite)) (ask (·.target p address isWrite)) := by
  refine agree_ask fun {s t} hR => ?_
  cases p with
  | arm7 => rfl
  | arm9 =>
    unfold System.target
    rw [h.control hR]

theorem read (p : Processor) (w : Width) (address : UInt32) :
    Agree (Paired R) (Console.read p w address) (Console.read p w address) := by
  unfold Console.read
  refine (h.target p _ _).bind fun target => ?_
  cases target with
  | memory region offset =>
    refine agree_ask fun hR => ?_
    rw [h.memory hR]
  | stub offset => exact .pure _
  | io => exact (h.readIoFrom p _ _ _ _ _).bind fun _ => .pure _
  | unmapped => exact .pure _

theorem write (p : Processor) (w : Width) (address value : UInt32) :
    Agree (Paired R) (Console.write p w address value) (Console.write p w address value) := by
  unfold Console.write
  refine (h.target p _ _).bind fun target => ?_
  cases target with
  | memory region offset =>
    refine agree_update fun {s t} hR => ?_
    rw [h.memory hR]
    exact h.withMemory hR _
  | io => exact h.writeIoFrom p _ _ _ _ _
  | stub offset => exact agree_report _
  | unmapped => exact agree_report _

theorem controlRead (cn cm cp : UInt32) :
    Agree (Paired R) (Console.controlRead cn cm cp) (Console.controlRead cn cm cp) := by
  have hread : Agree (Paired R) (ask (·.control.read? cn cm cp))
      (ask (·.control.read? cn cm cp)) := by
    refine agree_ask fun hR => ?_
    rw [h.control hR]
  unfold Console.controlRead
  refine hread.bind fun value => ?_
  cases value with
  | none => exact (agree_report _).bind fun _ => .pure _
  | some value => exact .pure value

theorem controlWrite
    (hcontrol : ∀ {s t}, R s t → ∀ control, R { s with control } { t with control })
    (cn cm cp value : UInt32) :
    Agree (Paired R) (Console.controlWrite cn cm cp value)
      (Console.controlWrite cn cm cp value) := by
  have hwrite : Agree (Paired R) (ask (·.control.write cn cm cp value))
      (ask (·.control.write cn cm cp value)) := by
    refine agree_ask fun hR => ?_
    rw [h.control hR]
  unfold Console.controlWrite
  refine hwrite.bind fun outcome => ?_
  refine (agree_update fun hR => hcontrol hR outcome.1).bind fun _ => ?_
  cases outcome.2 with
  | none => exact .pure _
  | halt => exact (agree_report _).bind fun _ => agree_updateCpu _
  | unknown => exact agree_report _

/-! ## Functions of the firmware -/

theorem copyUnits (p : Processor) (w : Width) (fill : Bool) (count : Nat)
    (source target : UInt32) :
    Agree (Paired R) (Firmware.copyUnits p w fill count source target)
      (Firmware.copyUnits p w fill count source target) := by
  induction count generalizing source target with
  | zero => exact .pure _
  | succ count ih =>
    exact (h.read p w source).bind fun value => (h.write p w target value).bind fun _ => ih _ _

theorem checksumFrom (p : Processor) (count : Nat) (address : UInt32) (crc : UInt16) :
    Agree (Paired R) (Firmware.checksumFrom p count address crc)
      (Firmware.checksumFrom p count address crc) := by
  induction count generalizing address crc with
  | zero => exact .pure crc
  | succ count ih => exact (h.read p .byte address).bind fun _ => ih _ _

theorem setMemory (p : Processor) (fast : Bool) :
    Agree (Paired R) (Firmware.setMemory p fast) (Firmware.setMemory p fast) := by
  refine (agree_argument _).bind fun source => (agree_argument _).bind fun target => ?_
  refine (agree_argument _).bind fun control => ?_
  exact (h.copyUnits p _ _ _ _ _).bind fun _ => .pure _

theorem waitForInterrupt (p : Processor) (forget : Bool) (flags : UInt32) :
    Agree (Paired R) (Firmware.waitForInterrupt p forget flags)
      (Firmware.waitForInterrupt p forget flags) := by
  have hraised : Agree (Paired R) (ask fun s => (s.interrupts.get p).raised &&& flags)
      (ask fun s => (s.interrupts.get p).raised &&& flags) := by
    refine agree_ask fun hR => ?_
    rw [h.interrupts hR]
  unfold Firmware.waitForInterrupt
  refine Agree.bind (agree_update fun {s t} hR => ?_) fun _ => hraised.bind fun raised => ?_
  · rw [h.interrupts hR]
    exact h.withInterrupts hR _
  · split
    · exact (agree_report _).bind fun _ => agree_halt.bind fun _ => .pure _
    · exact .pure _

theorem serve (p : Processor) (call : Firmware.Call) :
    Agree (Paired R) (Firmware.serve p call) (Firmware.serve p call) := by
  cases call with
  | cpuSet => exact h.setMemory p false
  | cpuFastSet => exact h.setMemory p true
  | waitByLoop =>
    exact (agree_argument _).bind fun _ => (agree_result _ _).bind fun _ => .pure _
  | intrWait =>
    exact (agree_argument _).bind fun _ => (agree_argument _).bind fun _ =>
      h.waitForInterrupt p _ _
  | vBlankIntrWait => exact h.waitForInterrupt p _ _
  | halt | sleep => exact (agree_report _).bind fun _ => agree_halt.bind fun _ => .pure _
  | soundBias => exact .pure _
  | div =>
    refine (agree_argument _).bind fun n => (agree_argument _).bind fun m => ?_
    refine (agree_result _ _).bind fun _ => (agree_result _ _).bind fun _ => ?_
    exact (agree_result _ _).bind fun _ => .pure _
  | sqrt => exact (agree_argument _).bind fun _ => (agree_result _ _).bind fun _ => .pure _
  | getCrc16 =>
    refine (agree_argument _).bind fun crc => (agree_argument _).bind fun address => ?_
    refine (agree_argument _).bind fun count => (h.checksumFrom p _ _ _).bind fun _ => ?_
    exact (agree_result _ _).bind fun _ => .pure _
  | isDebugger => exact (agree_result _ _).bind fun _ => .pure _
  | getSineTable =>
    exact (agree_argument _).bind fun _ => (agree_result _ _).bind fun _ => .pure _

theorem serveNumber (p : Processor) (number : UInt8) :
    Agree (Paired R) (Firmware.serveNumber p number) (Firmware.serveNumber p number) := by
  unfold Firmware.serveNumber
  cases Firmware.Call.of? p number with
  | none => exact (agree_report _).bind fun _ => .pure _
  | some call => exact (agree_report _).bind fun _ => h.serve p call

/-! ## Processors -/

theorem vectorBase (p : Processor) {s t : System} (hR : R s t) :
    (core p).vectorBase s = (core p).vectorBase t := by
  cases p with
  | arm7 => rfl
  | arm9 => exact congrArg SystemControl.vectorBase (h.control hR).symm

variable (hcontrol : ∀ {s t}, R s t → ∀ control, R { s with control } { t with control })

include hcontrol

/-- The processors do the same on related systems, native calls apart, which depend on the
settings. -/
theorem simulation (p : Processor) : Simulation (core p) (core p) (Paired R) where
  processor := rfl
  cpu hpair := hpair.cpu
  move hpair _ := ⟨rfl, hpair.system, hpair.log⟩
  report := agree_report
  interrupts hpair := by
    have hsame := h.interrupts hpair.system
    cases p with
    | arm7 => exact congrArg (·.get .arm7) hsame.symm
    | arm9 => exact congrArg (·.get .arm9) hsame.symm
  read w address := by cases p <;> exact h.read _ w address
  write w address value := by cases p <;> exact h.write _ w address value
  waitTime _ _ _ := by cases p <;> exact .pure _
  controlRead cn cm cp := by
    cases p with
    | arm7 => exact (agree_report _).bind fun _ => .pure _
    | arm9 => exact h.controlRead cn cm cp
  controlWrite cn cm cp value := by
    cases p with
    | arm7 => exact agree_report _
    | arm9 => exact h.controlWrite hcontrol cn cm cp value

/-- Exceptions are entered alike, whatever becomes of native calls. -/
theorem raise (p : Processor) (x : Exception) :
    Related (Paired R) ((core p).raise x) ((core p).raise x) := by
  -- Entering an exception makes no native call, so a core that serves none does the same.
  let mute : Core System := { core p with nativeCall := fun _ => pure none }
  have sim : FullSimulation mute mute (Paired R) :=
    { h.simulation hcontrol p with
      replace := fun _ hpair => ⟨rfl, hpair.system, hpair.log⟩
      vectorBase := fun hpair => h.vectorBase p hpair.system
      onException := fun _ => by cases p <;> exact .pure _
      nativeCall := fun _ => .pure _ }
  exact sim.raise x

/-- Where the settings are the same, too, whole steps agree. -/
theorem fullSimulation (hconfig : ∀ {s t}, R s t → t.config = s.config) (p : Processor) :
    FullSimulation (core p) (core p) (Paired R) where
  toSimulation := h.simulation hcontrol p
  replace _ hpair := ⟨rfl, hpair.system, hpair.log⟩
  vectorBase hpair := h.vectorBase p hpair.system
  onException _ := by cases p <;> exact .pure _
  nativeCall number := by
    have hnative : Agree (Paired R) (nativeCall p number) (nativeCall p number) := by
      have hask : Agree (Paired R) (ask (·.config.nativeFirmware))
          (ask (·.config.nativeFirmware)) := by
        refine agree_ask fun hR => ?_
        rw [hconfig hR]
      unfold nativeCall
      refine hask.bind fun native => ?_
      cases native with
      | false => exact .pure _
      | true => exact (h.serveNumber p number).bind fun _ => .pure _
    cases p <;> exact hnative

end Lockstep
end Handheld.Console
