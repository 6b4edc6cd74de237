import Handheld.Proofs.Console.FirmwareStub
import Handheld.Proofs.Console.Lockstep
import Handheld.Proofs.Console.Scheduling
import Handheld.Proofs.Cpu.SoftwareInterrupt

/-!
# Native calls return as the stub does

A software interrupt is served natively, or it enters the stub, which returns at once. Main
statement: whichever way the settings choose, the processor ends up in the same state, as do all
devices. For a function that is not there one native step is the entry and the step of the stub;
for one that is there the function acts in between.
-/

namespace Handheld.Console

open MachineM CpuState BoardM

/-! ## The settings do not show -/

/-- Systems that differ in their settings only. -/
def SameBySettings (s t : System) : Prop := ∃ config, t = { s with config }

/-- No access shows the settings. -/
theorem lockstep_settings : Lockstep SameBySettings where
  memory := by rintro s _ ⟨config, rfl⟩; rfl
  control := by rintro s _ ⟨config, rfl⟩; rfl
  interrupts := by rintro s _ ⟨config, rfl⟩; rfl
  withMemory := by rintro s _ ⟨config, rfl⟩ memory; exact ⟨config, rfl⟩
  withInterrupts := by rintro s _ ⟨config, rfl⟩ interrupts; exact ⟨config, rfl⟩
  ioValue := by rintro s _ ⟨config, rfl⟩ p r; cases r <;> rfl
  writeIo := by
    rintro s _ ⟨config, rfl⟩ p lanes log r
    cases r with
    | timerControl i =>
      show (s.writeTimerControl p i lanes log).2 =
          (System.writeTimerControl { s with config } p i lanes log).2 ∧
        SameBySettings (s.writeTimerControl p i lanes log).1
          (System.writeTimerControl { s with config } p i lanes log).1
      unfold System.writeTimerControl
      dsimp only
      cases ((s.timers.get p).writeControl i lanes s.queue.now).2 <;> exact ⟨rfl, config, rfl⟩
    | ipcSync =>
      refine ⟨rfl, config, ?_⟩
      show System.writeIpc { s with config } p lanes = { s.writeIpc p lanes with config }
      unfold System.writeIpc
      dsimp only
      split <;> rfl
    | _ => exact ⟨rfl, config, rfl⟩

theorem SameBySettings.withControl {s t : System} (h : SameBySettings s t)
    (control : SystemControl) : SameBySettings { s with control } { t with control } := by
  obtain ⟨config, rfl⟩ := h
  exact ⟨config, rfl⟩

/-! ## What a function leaves alone -/

/-- Systems in lockstep keep their control coprocessor, unless it is written itself. -/
theorem Lockstep.keepingControl {R : System → System → Prop} (h : Lockstep R)
    (c : SystemControl) : Lockstep fun s t => R s t ∧ s.control = c where
  memory hR := h.memory hR.1
  control hR := h.control hR.1
  interrupts hR := h.interrupts hR.1
  withMemory hR memory := ⟨h.withMemory hR.1 memory, hR.2⟩
  withInterrupts hR interrupts := ⟨h.withInterrupts hR.1 interrupts, hR.2⟩
  ioValue hR := h.ioValue hR.1
  writeIo hR p lanes log r :=
    ⟨(h.writeIo hR.1 p lanes log r).1, (h.writeIo hR.1 p lanes log r).2,
      (System.control_writeIo ..).trans hR.2⟩

theorem stays_serveNumber (p : Processor) (number : UInt8) :
    Stays (Firmware.serveNumber p number) := by
  unfold Firmware.serveNumber
  cases Firmware.Call.of? p number with
  | none => exact (Stays.report _).bind fun _ => .pure _
  | some call => exact (Stays.report _).bind fun _ => stays_serve p call

/-- A number without a function has no effect but a line in the log. -/
theorem serveNumber_of_absent {p : Processor} {number : UInt8}
    (h : Firmware.Call.of? p number = none) (b : Board System) :
    (Firmware.serveNumber p number b).2 =
      { b with log := b.log.add (.unknownBiosCall p number) } := by
  unfold Firmware.serveNumber
  rw [h]
  rfl

theorem nativeCall_of_native {p : Processor} {number : UInt8} {b : Board System}
    (h : b.system.config.nativeFirmware = true) :
    (core p).nativeCall number b =
      (some (Firmware.serveNumber p number b).1, (Firmware.serveNumber p number b).2) := by
  have hcall : (core p).nativeCall number b =
      (if b.system.config.nativeFirmware then do return some (← Firmware.serveNumber p number)
      else return none : BoardM System (Option UInt64)) b := by
    cases p <;> rfl
  rw [hcall, h]
  rfl

theorem nativeCall_of_foreign {p : Processor} {number : UInt8} {b : Board System}
    (h : b.system.config.nativeFirmware = false) : (core p).nativeCall number b = (none, b) := by
  have hcall : (core p).nativeCall number b =
      (if b.system.config.nativeFirmware then do return some (← Firmware.serveNumber p number)
      else return none : BoardM System (Option UInt64)) b := by
    cases p <;> rfl
  rw [hcall, h]
  rfl

/-! ## Up to the vector -/

section
variable {p : Processor} {b e : Board System}

theorem Paired.woken {R : System → System → Prop} (h : Paired R b e) :
    Paired R ((core p).woken b) ((core p).woken e) := by
  obtain ⟨cpu, s, log⟩ := b
  obtain ⟨_, t, _⟩ := e
  obtain ⟨rfl, hR, rfl⟩ := h
  unfold Core.woken
  dsimp only
  split <;> exact ⟨rfl, hR, rfl⟩

theorem Paired.fetched (h : Paired SameBySettings b e) :
    (core p).nextOpcode b = (core p).nextOpcode e ∧
      Alike (Paired SameBySettings) ((core p).fetched b) ((core p).fetched e) :=
  (lockstep_settings.simulation SameBySettings.withControl p).fetchNext _ _ ⟨h.woken, rfl⟩

theorem Paired.nextCall (h : Paired SameBySettings b e) {number : UInt8}
    (hcall : (core p).NextCall b number) : (core p).NextCall e number := by
  unfold Core.NextCall
  rw [← h.fetched.1, ← h.cpu]
  exact hcall

theorem Paired.entered (h : Paired SameBySettings b e) :
    Alike (Paired SameBySettings) ((core p).entered b) ((core p).entered e) := by
  have sim := lockstep_settings.simulation SameBySettings.withControl p
  obtain ⟨hopcode, hfetched⟩ := h.fetched (p := p)
  have hcalling : Alike (Paired SameBySettings) ((core p).calling b) ((core p).calling e) := by
    unfold Core.calling Core.noted
    rw [hopcode, hfetched.board.cpu]
    exact (sim.note _ _ _ hfetched).2
  exact (lockstep_settings.raise SameBySettings.withControl p .softwareInterrupt _ _ hcalling).2

/-- Entering a software interrupt changes no device. -/
theorem system_entered (p : Processor) (b : Board System) :
    ((core p).entered b).system = b.system :=
  ((core_looking p).raise _ _).2.trans <|
    ((core_looking p).fetchNext _).trans (Core.woken_system (core p) b)

end

/-- At the vector the processor finds the stub's return. -/
theorem StubMapped.return_stored {p : Processor} {e : Board System} (h : StubMapped p e.system)
    (he : (core p).AtVector e) :
    stored p e.system .word e.cpu.nextInstruction = 0xE1B0F00E := by
  have hsize : 2 < (Firmware.stub p).size := by cases p <;> decide
  have hvector : Exception.softwareInterrupt.vector = 4 * UInt32.ofNat 2 := by decide
  have haligned := alignDown_stubWord p e.system (i := 2) (by decide)
  unfold stubWord at haligned
  have hword := h.stored_word hsize
  unfold stubWord at hword
  rw [he.place, hvector, haligned, hword]
  cases p <;> rfl

/-! ## Both ways -/

section
variable {p : Processor} {b : Board System} {number : UInt8}

/-- A step that serves a software interrupt natively returns from what the function leaves. -/
theorem step_of_native (hrun : (core p).canRun b = true)
    (hcalm : (core p).takesInterrupt b = false) (hcall : (core p).NextCall b number)
    (hnative : b.system.config.nativeFirmware = true) :
    let served := (Firmware.serveNumber p number ((core p).entered b).toBoard).2
    ((core p).step b).2.cpu = served.cpu.returned ∧
      ((core p).step b).2.system = served.system := by
  intro served
  let arrived := ((core p).entered b).toBoard
  have hserve : (core p).nativeCall number arrived =
      (some (Firmware.serveNumber p number arrived).1, served) := by
    refine nativeCall_of_native ?_
    rw [show arrived.system = b.system from system_entered p b]
    exact hnative
  have hserved : ((core p).nativeCall number arrived).2 = served := congrArg Prod.snd hserve
  obtain ⟨hcpu, hsystem⟩ := (core_looking p).softwareInterrupt_of_native
    (m := (core p).calling b) (congrArg Prod.fst hserve)
  rw [(core_looking p).step_of_call hrun hcalm hcall, ← hserved]
  exact ⟨hcpu, hsystem⟩

/-- Without native calls the step of a software interrupt enters it. -/
theorem step_of_foreign (hrun : (core p).canRun b = true)
    (hcalm : (core p).takesInterrupt b = false) (hcall : (core p).NextCall b number)
    (hforeign : b.system.config.nativeFirmware = false) :
    ((core p).step b).2 = ((core p).entered b).toBoard := by
  refine ((core_looking p).step_of_call hrun hcalm hcall).trans ?_
  refine Core.softwareInterrupt_of_foreign (nativeCall_of_foreign ?_)
  rw [show ((core p).raise .softwareInterrupt ((core p).calling b)).2.toBoard.system = b.system
    from system_entered p b]
  exact hforeign

end

/-- A board whose settings have firmware calls served natively, or not. -/
def settingNative (nativeFirmware : Bool) (b : Board System) : Board System :=
  { b with
    system := { b.system with config := { b.system.config with nativeFirmware } } }

/-- The settings are no part of what is paired. -/
theorem paired_settingNative (yes no : Bool) (b : Board System) :
    Paired SameBySettings (settingNative yes b) (settingNative no b) :=
  ⟨rfl, ⟨(settingNative no b).system.config, rfl⟩, rfl⟩

/-- Boards with the same processor and the same devices. Apart from the settings and the log they
may differ in opcodes that were prefetched before a jump and will not be executed. -/
structure SameOutcome (b e : Board System) : Prop where
  cpu : ∃ pipeline, e.cpu = { b.cpu with pipeline }
  stale : b.cpu.pipelineValid = false
  system : SameBySettings b.system e.system

/-- The step of the stub ends as a native call does that leaves the same state. -/
theorem sameOutcome_of_return {p : Processor} {t served e : Board System}
    (ht : t.cpu = served.cpu.returned ∧ t.system = served.system)
    (hserved : Paired SameBySettings served e) (he : (core p).AtVector e)
    (hstub : StubMapped p e.system) : SameOutcome t ((core p).step e).2 := by
  obtain ⟨pipeline, hcpu, hsystem⟩ := (core_looking p).step_of_return he (hstub.return_stored he)
  refine ⟨⟨pipeline, ?_⟩, ?_, ?_⟩
  · rw [hcpu, ht.1, hserved.cpu]
  · rw [ht.1]
    rfl
  · rw [ht.2, hsystem]
    exact hserved.system

/-- **A native call returns as the stub does.** A processor that finds the stub at its vectors and
has no interrupt to take executes a software interrupt, in any mode and instruction set. If there
is no function under its number, the step with native calls leaves the same registers of all banks,
statuses, program counter, halt flag and devices as the two steps without them, which enter the
interrupt and return. If there is one and it does not halt the processor, the same holds once the
function has acted between these two steps. -/
theorem native_call_returns_alike (p : Processor) {b : Board System}
    (hrun : (core p).canRun b = true) (hcalm : (core p).takesInterrupt b = false)
    {number : UInt8} (hcall : (core p).NextCall b number) (hstub : StubMapped p b.system) :
    let native := ((core p).step (settingNative true b)).2
    let entered := ((core p).step (settingNative false b)).2
    let served := (Firmware.serveNumber p number entered).2
    (Firmware.Call.of? p number = none → SameOutcome native ((core p).step entered).2) ∧
      (served.cpu.isHalted = false → SameOutcome native ((core p).step served).2) := by
  intro native entered served
  let yes := settingNative true b
  let no := settingNative false b
  have hcalls : ∀ on, (core p).NextCall (settingNative on b) number := fun on =>
    (paired_settingNative b.system.config.nativeFirmware on b).nextCall hcall
  have hruns : ∀ on, (core p).canRun (settingNative on b) = true := fun _ => by
    cases p <;> exact hrun
  have hcalms : ∀ on, (core p).takesInterrupt (settingNative on b) = false := fun _ => by
    cases p <;> exact hcalm
  have hnative := step_of_native (hruns true) (hcalms true) (hcalls true) rfl
  have hentered : entered = ((core p).entered no).toBoard :=
    step_of_foreign (hruns false) (hcalms false) (hcalls false) rfl
  -- Both ways reach the vector with everything alike but the settings.
  have harrived : Paired SameBySettings ((core p).entered yes).toBoard entered := by
    rw [hentered]
    exact (paired_settingNative true false b).entered.board
  have hvector : (core p).AtVector entered := by
    rw [hentered]
    exact (core_looking p).atVector no
  have hcontrol : entered.system.control = b.system.control := by
    rw [hentered, system_entered]
    rfl
  -- What the function does there is alike, too, and it moves neither the processor nor the stub.
  have hkept : ((core p).entered yes).system.control = entered.system.control :=
    (lockstep_settings.control harrived.system).symm
  obtain ⟨-, hserved⟩ := (lockstep_settings.keepingControl _).serveNumber p number _ _
    ⟨harrived.cpu, ⟨harrived.system, hkept⟩, harrived.log⟩
  have hservedControl : served.system.control = entered.system.control :=
    (lockstep_settings.control hserved.system.1).trans hserved.system.2
  refine ⟨fun habsent => ?_, fun hawake => ?_⟩
  · rw [serveNumber_of_absent habsent] at hnative
    exact @sameOutcome_of_return p _ ((core p).entered yes).toBoard _ hnative harrived hvector
      (hstub.congr hcontrol)
  · refine sameOutcome_of_return hnative ⟨hserved.cpu, hserved.system.1, hserved.log⟩ ?_
      (hstub.congr (hservedControl.trans hcontrol))
    exact hvector.stays (stays_serveNumber p number entered)
      (vectors_congr p hservedControl) hawake

/-- A program of short instructions in system mode that is about to divide -100 by 7. -/
def dividing : Board System where
  cpu :=
    { ((({} : CpuState).setCpsr 0x3F).setReg 0 0xFFFFFF9C |>.setReg 1 7).startAt 0x02000100 with
      pipeline := #v[0xDF09, 0], pipelineValid := true }
  system := {}
  log := {}

/-- The division is done natively as between the two steps of the stub, and the program goes on
with the quotient in r0. -/
theorem native_call_returns_alike_dividing :
    let native := ((core .arm9).step (settingNative true dividing)).2
    let entered := ((core .arm9).step (settingNative false dividing)).2
    let served := (Firmware.serveNumber .arm9 9 entered).2
    SameOutcome native ((core .arm9).step served).2 ∧ native.cpu.reg 0 = 0xFFFFFFF2 ∧
      native.cpu.cpsr = 0x3F ∧ native.cpu.nextInstruction = 0x02000102 := by
  have hopcode : (core .arm9).nextOpcode dividing = (true, 0xDF09) := rfl
  have hcall : (core .arm9).NextCall dividing 9 := by
    unfold Core.NextCall
    rw [hopcode]
    exact ⟨by decide, .inl rfl⟩
  have hstub : StubMapped .arm9 dividing.system := stubMapped_initial rfl
  exact ⟨(native_call_returns_alike .arm9 rfl rfl hcall hstub).2 rfl, rfl, rfl, rfl⟩

end Handheld.Console
