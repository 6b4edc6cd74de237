import Handheld.Proofs.Console.Recording
import Handheld.Proofs.Cpu.InterruptReturn
import Handheld.Proofs.Cpu.Prefetch
import Handheld.Proofs.Thumb.Equivalence

/-!
# The console behind a processor

What the console's processors can rely on when they call the console. Reading only looks at the
system; writing goes by what the system is and not by what the processor is about to execute; and
nothing but the processor itself moves it or touches what it has prefetched. So what is proved of
every core with such callbacks holds of the console's processors.
-/

namespace Handheld

open CpuState

variable {σ α β : Type}

/-! ## Acting on the system -/

theorem Looks.seesSystem {act : BoardM σ α} (h : Looks act) : SeesSystem act where
  value hsystem := h.value hsystem
  system {b e} hsystem := by rw [h.system e, h.system b, hsystem]
  cpu b := by
    rw [h.cpu b]
    exact .refl b.cpu

namespace SeesSystem

theorem bind {act : BoardM σ α} {k : α → BoardM σ β} (hact : SeesSystem act)
    (hk : ∀ a, SeesSystem (k a)) : SeesSystem (act >>= k) where
  value {b e} h := by
    show (k (act e).1 (act e).2).1 = (k (act b).1 (act b).2).1
    rw [hact.value h]
    exact (hk _).value (hact.system h)
  system {b e} h := by
    show (k (act e).1 (act e).2).2.system = (k (act b).1 (act b).2).2.system
    rw [hact.value h]
    exact (hk _).system (hact.system h)
  cpu b := (hact.cpu b).trans ((hk _).cpu _)

theorem update (f : σ → σ) : SeesSystem (BoardM.update f) where
  value _ := rfl
  system h := congrArg f h
  cpu b := .refl b.cpu

end SeesSystem

/-- An action that leaves the processor where it is, with what it has prefetched. -/
def Stays (act : BoardM σ α) : Prop := ∀ b : Board σ, b.cpu.SameFetch (act b).2.cpu

namespace Stays

theorem of_cpu {act : BoardM σ α} (h : ∀ b, (act b).2.cpu = b.cpu) : Stays act := by
  intro b
  rw [h b]
  exact .refl b.cpu

theorem pure (a : α) : Stays (Pure.pure a : BoardM σ α) := of_cpu fun _ => rfl

theorem ask (f : σ → α) : Stays (BoardM.ask f) := of_cpu fun _ => rfl

theorem report (entry : LogEntry) : Stays (BoardM.report entry : BoardM σ Unit) :=
  of_cpu fun _ => rfl

theorem update (f : σ → σ) : Stays (BoardM.update f) := of_cpu fun _ => rfl

theorem bind {act : BoardM σ α} {k : α → BoardM σ β} (hact : Stays act) (hk : ∀ a, Stays (k a)) :
    Stays (act >>= k) := fun b => (hact b).trans (hk _ _)

theorem ite {p : Prop} [Decidable p] {f g : BoardM σ α} (hf : Stays f) (hg : Stays g) :
    Stays (if p then f else g) := by
  split <;> assumption

end Stays

theorem Looks.stays {act : BoardM σ α} (h : Looks act) : Stays act := .of_cpu h.cpu

namespace Console

/-! ## Writing -/

theorem sameData_halted (s : CpuState) : s.SameData { s with isHalted := true } :=
  ⟨fun _ _ => rfl, fun _ _ => rfl, rfl⟩

theorem stays_halt : Stays (BoardM.updateCpu ({ · with isHalted := true }) : BoardM System Unit) :=
  fun _ => ⟨⟨rfl, rfl⟩, rfl, rfl⟩

/-- What is logged does not show in the devices. -/
theorem system_writeIo (s : System) (p : Processor) (lanes : Lanes) (log log' : Log)
    (r : IoRegister) : (s.writeIo p lanes log r).1 = (s.writeIo p lanes log' r).1 := by
  cases r with
  | timerControl i =>
    show (s.writeTimerControl p i lanes log).1 = (s.writeTimerControl p i lanes log').1
    unfold System.writeTimerControl
    obtain ⟨timers, delay?⟩ := (s.timers.get p).writeControl i lanes s.queue.now
    cases delay? <;> rfl
  | _ => rfl

theorem seesSystem_writeRegister (p : Processor) (lanes : Lanes) (r : IoRegister) :
    SeesSystem (writeRegister p lanes r) where
  value _ := rfl
  system {b e} h := by
    rw [Monitor.system_writeRegister, Monitor.system_writeRegister, h]
    exact system_writeIo ..
  cpu b := by
    cases r with
    | haltControl =>
      unfold writeRegister
      cases System.powerRequest lanes.raw with
      | none => exact .refl b.cpu
      | halt | sleep _ => exact sameData_halted b.cpu
    | _ => exact .refl b.cpu

theorem stays_writeRegister (p : Processor) (lanes : Lanes) (r : IoRegister) :
    Stays (writeRegister p lanes r) := by
  cases r with
  | haltControl =>
    unfold writeRegister
    cases System.powerRequest lanes.raw with
    | none => exact .pure ()
    | halt | sleep _ => exact (Stays.report _).bind fun _ => stays_halt
  | _ => exact .of_cpu fun _ => rfl

theorem seesSystem_writeIoFrom (p : Processor) (left skip : Nat) (a value mask : UInt32) :
    SeesSystem (writeIoFrom p left skip a value mask) := by
  induction left generalizing skip a value mask with
  | zero => exact (Looks.pure ()).seesSystem
  | succ left ih =>
    cases skip with
    | succ skip => exact ih skip _ _ _
    | zero =>
      unfold writeIoFrom
      cases IoRegister.writableAt? p a with
      | none => exact (Looks.report _).seesSystem.bind fun _ => ih _ _ _ _
      | some r => exact (seesSystem_writeRegister p _ r).bind fun _ => ih _ _ _ _

theorem stays_writeIoFrom (p : Processor) (left skip : Nat) (a value mask : UInt32) :
    Stays (writeIoFrom p left skip a value mask) := by
  induction left generalizing skip a value mask with
  | zero => exact .pure ()
  | succ left ih =>
    cases skip with
    | succ skip => exact ih skip _ _ _
    | zero =>
      unfold writeIoFrom
      cases IoRegister.writableAt? p a with
      | none => exact (Stays.report _).bind fun _ => ih _ _ _ _
      | some r => exact (stays_writeRegister p _ r).bind fun _ => ih _ _ _ _

theorem seesSystem_write (p : Processor) (w : Width) (address value : UInt32) :
    SeesSystem (write p w address value) := by
  unfold write
  refine (Looks.ask _).seesSystem.bind fun target => ?_
  cases target with
  | memory region offset => exact .update _
  | io => exact seesSystem_writeIoFrom p _ _ _ _ _
  | stub offset => exact (Looks.report _).seesSystem
  | unmapped => exact (Looks.report _).seesSystem

theorem stays_write (p : Processor) (w : Width) (address value : UInt32) :
    Stays (write p w address value) := by
  unfold write
  refine (Stays.ask _).bind fun target => ?_
  cases target with
  | memory region offset => exact .update _
  | io => exact stays_writeIoFrom p _ _ _ _ _
  | stub offset => exact .report _
  | unmapped => exact .report _

theorem stays_controlWrite (cn cm cp value : UInt32) : Stays (controlWrite cn cm cp value) := by
  unfold controlWrite
  refine (Stays.ask _).bind fun outcome => (Stays.update _).bind fun _ => ?_
  cases outcome.2 with
  | none => exact .pure _
  | halt => exact (Stays.report _).bind fun _ => stays_halt
  | unknown => exact .report _

/-! ## Functions of the firmware -/

theorem stays_argument (r : Register) : Stays (Firmware.argument r) := .of_cpu fun _ => rfl

/-- No result is given in the program counter. -/
theorem stays_result {r : Register} (hr : r ≠ Register.pc) (value : UInt32) :
    Stays (Firmware.result r value) :=
  fun b => ⟨⟨pc_setReg b.cpu hr value, rfl⟩, rfl, rfl⟩

theorem stays_copyUnits (p : Processor) (w : Width) (fill : Bool) (count : Nat)
    (source target : UInt32) : Stays (Firmware.copyUnits p w fill count source target) := by
  induction count generalizing source target with
  | zero => exact .pure _
  | succ count ih =>
    exact (looks_read p w source).stays.bind fun value =>
      (stays_write p w target value).bind fun _ => ih _ _

theorem stays_setMemory (p : Processor) (fast : Bool) : Stays (Firmware.setMemory p fast) := by
  refine (stays_argument _).bind fun source => (stays_argument _).bind fun target => ?_
  refine (stays_argument _).bind fun control => ?_
  exact (stays_copyUnits p _ _ _ _ _).bind fun _ => .pure _

theorem stays_waitForInterrupt (p : Processor) (forget : Bool) (flags : UInt32) :
    Stays (Firmware.waitForInterrupt p forget flags) := by
  unfold Firmware.waitForInterrupt
  refine (Stays.update _).bind fun _ => (Stays.ask _).bind fun _ => ?_
  refine .ite ((Stays.report _).bind fun _ => ?_) (.pure _)
  exact stays_halt.bind fun _ => .pure _

theorem stays_serve (p : Processor) (call : Firmware.Call) : Stays (Firmware.serve p call) := by
  have hresult : ∀ value : UInt32, Stays (Firmware.result 0 value) := stays_result (by decide)
  cases call with
  | cpuSet => exact stays_setMemory p false
  | cpuFastSet => exact stays_setMemory p true
  | waitByLoop => exact (stays_argument _).bind fun _ => (hresult _).bind fun _ => .pure _
  | intrWait =>
    exact (stays_argument _).bind fun _ => (stays_argument _).bind fun _ =>
      stays_waitForInterrupt p _ _
  | vBlankIntrWait => exact stays_waitForInterrupt p _ _
  | halt | sleep => exact (Stays.report _).bind fun _ => stays_halt.bind fun _ => .pure _
  | soundBias => exact .pure _
  | div =>
    refine (stays_argument _).bind fun n => (stays_argument _).bind fun m => ?_
    refine (hresult _).bind fun _ => (stays_result (by decide) _).bind fun _ => ?_
    exact (stays_result (by decide) _).bind fun _ => .pure _
  | sqrt => exact (stays_argument _).bind fun _ => (hresult _).bind fun _ => .pure _
  | getCrc16 =>
    refine (stays_argument _).bind fun crc => (stays_argument _).bind fun address => ?_
    refine (stays_argument _).bind fun count => (looks_checksumFrom p _ _ _).stays.bind fun _ => ?_
    exact (hresult _).bind fun _ => .pure _
  | isDebugger => exact (hresult _).bind fun _ => .pure _
  | getSineTable => exact (stays_argument _).bind fun _ => (hresult _).bind fun _ => .pure _

theorem stays_nativeCall (p : Processor) (number : UInt8) : Stays (nativeCall p number) := by
  have hserve : Stays (Firmware.serveNumber p number) := by
    unfold Firmware.serveNumber
    cases Firmware.Call.of? p number with
    | none => exact (Stays.report _).bind fun _ => .pure _
    | some call => exact (Stays.report _).bind fun _ => stays_serve p call
  unfold nativeCall
  refine (Stays.ask _).bind fun native => ?_
  cases native with
  | false => exact .pure _
  | true => exact hserve.bind fun _ => .pure _

/-! ## The processors -/

theorem core_quietEntry (p : Processor) : (core p).QuietEntry := by
  cases p <;>
    exact ⟨fun w address => (looks_read _ w address).cpu, fun _ _ _ _ => rfl, fun _ _ => rfl⟩

theorem core_within (p : Processor) : (core p).Within SameFetch where
  read w address := by cases p <;> exact (looks_read _ w address).stays
  write w address value := by cases p <;> exact stays_write _ w address value
  waitTime _ _ _ := by cases p <;> exact Stays.pure _
  onException _ := by cases p <;> exact Stays.pure _
  nativeCall number := by cases p <;> exact stays_nativeCall _ number
  controlRead cn cm cp := by
    cases p with
    | arm7 => exact (Stays.report _).bind fun _ => .pure _
    | arm9 => exact (looks_controlRead cn cm cp).stays
  controlWrite cn cm cp value := by
    cases p with
    | arm7 => exact Stays.report _
    | arm9 => exact stays_controlWrite cn cm cp value

/-- What the console has stored for a processor. -/
def stored (p : Processor) : Core.Store System := fun s w address =>
  w.truncate (read p w address { cpu := {}, system := s, log := {} }).1

theorem core_backed (p : Processor) : (core p).Backed (stored p) where
  within := core_within p
  read w address b := by
    cases p <;> exact congrArg w.truncate ((looks_read _ w address).value rfl)
  read_stored w address b := by
    cases p <;> exact congrArg (stored _) ((looks_read _ w address).system b)
  waitTime_stored _ _ _ _ := by cases p <;> rfl

theorem core_seesSystem (p : Processor) : (core p).SeesSystem := by
  cases p <;>
    exact ⟨fun w address => (looks_read _ w address).seesSystem, seesSystem_write _,
      fun _ _ _ => (Looks.pure _).seesSystem⟩

/-- A processor of the console does for a short instruction what it does for any word that is its
long form, whatever memory or registers the instruction reaches. -/
theorem core_executeThumb_beside (p : Processor) {half : UInt16} {word : UInt32}
    {i : Arm.Instruction}
    (hlong : (Thumb.decode (core p).processor.isV5 half).expansion? = some i)
    (hdecode : Arm.decode (core p).processor.isV5 word = i) (hcondition : Arm.condition word = 14)
    {lag : UInt64} {m n : Machine System} (h : Beside lag m n) :
    Beside lag ((core p).executeThumb half m).2 ((core p).executeArm word n).2 :=
  (core_seesSystem p).executeThumb_beside hlong hdecode hcondition h

end Console
end Handheld
