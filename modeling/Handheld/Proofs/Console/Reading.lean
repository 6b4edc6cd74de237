import Mathlib
import Handheld.Console.Cores

/-!
# Reading the console

Reading memory, a device or a control register only looks at the system. Nothing changes but the
log, which notes what was read where nothing is.
-/

namespace Handheld

variable {σ α β : Type}

/-! ## Looking at the system -/

/-- What comes after a look at the system starts from what was seen. -/
theorem BoardM.ask_bind (f : σ → α) (k : α → BoardM σ β) (b : Board σ) :
    (BoardM.ask f >>= k) b = k (f b.system) b := rfl

/-- An action that is a reading of the system and changes nothing but the log. -/
def Looks (act : BoardM σ α) : Prop :=
  ∃ f : σ → α, ∀ b, ∃ log, act b = (f b.system, { b with log })

namespace Looks

theorem pure (a : α) : Looks (Pure.pure a : BoardM σ α) := ⟨fun _ => a, fun b => ⟨b.log, rfl⟩⟩

theorem ask (f : σ → α) : Looks (BoardM.ask f) := ⟨f, fun b => ⟨b.log, rfl⟩⟩

theorem report (entry : LogEntry) : Looks (BoardM.report entry : BoardM σ Unit) :=
  ⟨fun _ => (), fun b => ⟨b.log.add entry, rfl⟩⟩

theorem bind {act : BoardM σ α} {k : α → BoardM σ β} (hact : Looks act) (hk : ∀ a, Looks (k a)) :
    Looks (act >>= k) := by
  obtain ⟨value, hvalue⟩ := hact
  choose rest hrest using hk
  refine ⟨fun s => rest (value s) s, fun b => ?_⟩
  obtain ⟨log, hfirst⟩ := hvalue b
  obtain ⟨log', hsecond⟩ := hrest (value b.system) { b with log }
  refine ⟨log', ?_⟩
  show k (act b).1 (act b).2 = _
  rw [hfirst]
  exact hsecond

variable {act : BoardM σ α}

theorem cpu (h : Looks act) (b : Board σ) : (act b).2.cpu = b.cpu := by
  obtain ⟨value, hvalue⟩ := h
  obtain ⟨log, hact⟩ := hvalue b
  rw [hact]

theorem system (h : Looks act) (b : Board σ) : (act b).2.system = b.system := by
  obtain ⟨value, hvalue⟩ := h
  obtain ⟨log, hact⟩ := hvalue b
  rw [hact]

theorem value (h : Looks act) {b e : Board σ} (hsystem : e.system = b.system) :
    (act e).1 = (act b).1 := by
  obtain ⟨value, hvalue⟩ := h
  obtain ⟨log, hact⟩ := hvalue b
  obtain ⟨log', hact'⟩ := hvalue e
  rw [hact, hact', hsystem]

end Looks

namespace Console

/-! ## The console -/

theorem looks_readIoFrom (p : Processor) (left skip : Nat) (a shift total : UInt32) :
    Looks (readIoFrom p left skip a shift total) := by
  induction left generalizing skip a shift total with
  | zero => exact .pure total
  | succ left ih =>
    cases skip with
    | succ skip => exact ih skip _ _ _
    | zero =>
      unfold readIoFrom
      cases IoRegister.at? p a with
      | none => exact (Looks.report _).bind fun _ => ih _ _ _ _
      | some r => exact (Looks.ask _).bind fun _ => ih _ _ _ _

theorem looks_read (p : Processor) (w : Width) (address : UInt32) : Looks (read p w address) := by
  unfold read
  refine (Looks.ask _).bind fun target => ?_
  cases target with
  | memory region offset => exact .ask _
  | stub offset => exact .pure _
  | io => exact (looks_readIoFrom p _ _ _ _ _).bind fun _ => .pure _
  | unmapped => exact .pure _

theorem looks_controlRead (cn cm cp : UInt32) : Looks (controlRead cn cm cp) := by
  unfold controlRead
  refine (Looks.ask _).bind fun value => ?_
  cases value with
  | none => exact (Looks.report _).bind fun _ => .pure _
  | some value => exact .pure value

theorem looks_checksumFrom (p : Processor) (count : Nat) (address : UInt32) (crc : UInt16) :
    Looks (Firmware.checksumFrom p count address crc) := by
  induction count generalizing address crc with
  | zero => exact .pure crc
  | succ count ih => exact (looks_read p .byte address).bind fun _ => ih _ _

end Console
end Handheld
