import Mathlib
import Handheld.Console.SystemControl
import Handheld.Proofs.Word

/-!
# The windows of the tightly coupled memories

Each window is kept beside the registers that describe it. Every write to a register that a window
depends on computes it anew, so after any sequence of writes the windows are those that the
registers describe, and an access is taken by a window exactly as the registers say: by the enable
bits, the load mode, the base and the size.
-/

namespace Handheld.Console

open Word

namespace SystemControl

/-- The windows are those that the registers describe. -/
def Settled (c : SystemControl) : Prop := c.updateDataWindow.updateInstWindow = c

theorem settled_iff {c : SystemControl} :
    c.Settled ↔ c.updateDataWindow.dataWindow = c.dataWindow ∧
      c.updateInstWindow.instWindow = c.instWindow := by
  constructor
  · intro h
    have hwindows : c.updateDataWindow.updateInstWindow = c := h
    exact ⟨congrArg (·.dataWindow) hwindows, congrArg (·.instWindow) hwindows⟩
  · rintro ⟨hdata, hinst⟩
    show { c with
      dataWindow := c.updateDataWindow.dataWindow
      instWindow := c.updateInstWindow.instWindow } = c
    rw [hdata, hinst]

theorem settled_initial : initial.Settled := rfl

/-- A write computes the windows that depend on the register anew. -/
theorem Settled.write {c : SystemControl} (h : c.Settled) (cn cm cp value : UInt32) :
    (c.write cn cm cp value).1.Settled := by
  obtain ⟨hdata, hinst⟩ := settled_iff.mp h
  unfold SystemControl.write
  -- Only the control register and the two window registers have a part in the windows.
  split
  case h_2 => exact rfl
  case h_17 => exact settled_iff.mpr ⟨rfl, hinst⟩
  case h_18 => exact settled_iff.mpr ⟨hdata, rfl⟩
  all_goals exact settled_iff.mpr ⟨hdata, hinst⟩

/-- The coprocessors that register writes lead to. -/
inductive Configured : SystemControl → Prop
  | initial : Configured initial
  | write {c : SystemControl} (configured : Configured c) (cn cm cp value : UInt32) :
      Configured (c.write cn cm cp value).1

theorem Configured.settled {c : SystemControl} (h : c.Configured) : c.Settled := by
  induction h with
  | initial => exact settled_initial
  | write _ cn cm cp value ih => exact ih.write cn cm cp value

end SystemControl

/-! ## What the registers describe -/

namespace Tcm

/-- The bit of the control register that enables the window. The next bit is its load mode. -/
def enableBit : Tcm → Nat
  | data => 16
  | inst => 18

/-- The register that places the window and gives its size. -/
def register (c : SystemControl) : Tcm → UInt32
  | data => c.tcmControl.first
  | inst => c.tcmControl.second

/-- Where the window starts. That of the instruction memory cannot be moved. -/
def base (c : SystemControl) : Tcm → Nat
  | data => c.tcmControl.first.toNat / 0x1000 * 0x1000
  | inst => 0

/-- The size of the window, which may be smaller or greater than that of the memory. -/
def span (c : SystemControl) (tcm : Tcm) : Nat := 512 * 2 ^ ((tcm.register c).toNat / 2 % 32)

/-- The end of the window, which never reaches beyond the address space. -/
def limit (c : SystemControl) (tcm : Tcm) : Nat := min (tcm.base c + tcm.span c) 0xFFFFFFFF

end Tcm

namespace SystemControl

variable {c : SystemControl} {tcm : Tcm}

/-- The window takes an access: it is enabled, a read is not in its load mode, and the address lies
in it. -/
def Takes (c : SystemControl) (tcm : Tcm) (write : Bool) (address : Nat) : Prop :=
  isBit c.control tcm.enableBit = true ∧
    (write = true ∨ isBit c.control (tcm.enableBit + 1) = false) ∧
      tcm.base c ≤ address ∧ address < tcm.limit c

instance (c : SystemControl) (tcm : Tcm) (write : Bool) (address : Nat) :
    Decidable (c.Takes tcm write address) := inferInstanceAs (Decidable (_ ∧ _))

/-- What is taken when it is read is taken when it is written. -/
theorem Takes.of_read {write : Bool} {address : Nat} (h : c.Takes tcm false address) :
    c.Takes tcm write address := by
  obtain ⟨henabled, hload, hrange⟩ := h
  exact ⟨henabled, .inr (hload.resolve_left Bool.false_ne_true), hrange⟩

/-! ## Windows as kept -/

/-- The window of a memory. -/
def window (c : SystemControl) : Tcm → TcmWindow
  | .data => c.dataWindow
  | .inst => c.instWindow

theorem toNat_windowSize (register : UInt32) :
    (windowSize register).toNat = min (512 * 2 ^ (register.toNat / 2 % 32)) 0xFFFFFFFF := by
  have hbits : (bits register 1 5).toNat = register.toNat / 2 % 32 :=
    toNat_bits register (by decide) (by decide)
  have hamount : register.toNat / 2 % 32 < 32 := Nat.mod_lt _ (by decide)
  have hpow : 2 ^ (register.toNat / 2 % 32) ≤ 2 ^ 31 :=
    Nat.pow_le_pow_right (by decide) (by omega)
  have hsize : ((512 : UInt64) <<< (bits register 1 5).toUInt64).toNat =
      512 * 2 ^ (register.toNat / 2 % 32) := by
    have hfirst : (512 : UInt64).toNat = 512 := rfl
    rw [UInt64.toNat_shiftLeft, UInt32.toNat_toUInt64, hbits, hfirst,
      Nat.mod_eq_of_lt (hamount.trans (by decide)), Nat.shiftLeft_eq]
    omega
  show (if (512 : UInt64) <<< (bits register 1 5).toUInt64 < 0x100000000 then
    ((512 : UInt64) <<< (bits register 1 5).toUInt64).toUInt32 else 0xFFFFFFFF).toNat = _
  have hbound : (0x100000000 : UInt64).toNat = 2 ^ 32 := rfl
  have hgreatest : (0xFFFFFFFF : UInt32).toNat = 0xFFFFFFFF := rfl
  by_cases hfits : (512 : UInt64) <<< (bits register 1 5).toUInt64 < 0x100000000
  · rw [if_pos hfits, UInt64.toNat_toUInt32, hsize]
    rw [UInt64.lt_iff_toNat_lt, hsize, hbound] at hfits
    omega
  · rw [if_neg hfits, hgreatest]
    rw [UInt64.lt_iff_toNat_lt, hsize, hbound] at hfits
    omega

theorem toNat_windowStop (start size : UInt32) :
    (windowStop start size).toNat = min (start.toNat + size.toNat) 0xFFFFFFFF := by
  have hgreatest : (0xFFFFFFFF : UInt32).toNat = 0xFFFFFFFF := rfl
  have hstart := start.toNat_lt
  have hroom : (0xFFFFFFFF - start).toNat = 0xFFFFFFFF - start.toNat := by
    rw [UInt32.toNat_sub_of_le _ _ (UInt32.le_iff_toNat_le.mpr (by omega)), hgreatest]
  unfold windowStop
  by_cases hfits : size ≤ 0xFFFFFFFF - start
  · rw [if_pos hfits, UInt32.toNat_add]
    rw [UInt32.le_iff_toNat_le, hroom] at hfits
    omega
  · rw [if_neg hfits, hgreatest]
    rw [UInt32.le_iff_toNat_le, hroom] at hfits
    omega

theorem Settled.window_state (h : c.Settled) :
    (c.window tcm).state = windowState c.control tcm.enableBit := by
  obtain ⟨hdata, hinst⟩ := settled_iff.mp h
  cases tcm with
  | data => exact (congrArg TcmWindow.state hdata).symm
  | inst => exact (congrArg TcmWindow.state hinst).symm

theorem Settled.window_start (h : c.Settled) : (c.window tcm).start.toNat = tcm.base c := by
  obtain ⟨hdata, hinst⟩ := settled_iff.mp h
  cases tcm with
  | data =>
    have hstart : c.dataWindow.start = Address.alignDown c.tcmControl.first 0x1000 :=
      (congrArg TcmWindow.start hdata).symm
    exact (congrArg UInt32.toNat hstart).trans (Address.toNat_alignDown (k := 12) _ rfl)
  | inst => exact congrArg (fun w => w.start.toNat) hinst.symm

theorem Settled.window_stop (h : c.Settled) : (c.window tcm).stop.toNat = tcm.limit c := by
  obtain ⟨hdata, hinst⟩ := settled_iff.mp h
  cases tcm with
  | data =>
    have hstart : (c.window .data).start.toNat = Tcm.data.base c := h.window_start
    have hstop : c.dataWindow.stop =
        windowStop (c.window .data).start (windowSize c.tcmControl.first) := by
      show c.dataWindow.stop = windowStop c.dataWindow.start _
      rw [← hdata]
      rfl
    have hspan : Tcm.data.span c = 512 * 2 ^ (c.tcmControl.first.toNat / 2 % 32) := rfl
    show c.dataWindow.stop.toNat = min (Tcm.data.base c + Tcm.data.span c) 0xFFFFFFFF
    rw [hstop, toNat_windowStop, toNat_windowSize, hstart, hspan]
    omega
  | inst =>
    have hstop : c.instWindow.stop = windowSize c.tcmControl.second :=
      (congrArg TcmWindow.stop hinst).symm
    show c.instWindow.stop.toNat = min (0 + 512 * 2 ^ (c.tcmControl.second.toNat / 2 % 32)) _
    rw [hstop, toNat_windowSize, Nat.zero_add]

/-- Whether a window in this state lets an access through. -/
def lets (state : TcmState) (write : Bool) : Bool :=
  match state with
  | .disabled => false
  | .writeOnly => write
  | .readWrite => true

theorem lets_windowState (control : UInt32) (enable : Nat) (write : Bool) :
    lets (windowState control enable) write = true ↔
      isBit control enable = true ∧ (write = true ∨ isBit control (enable + 1) = false) := by
  unfold windowState
  cases isBit control enable <;> cases isBit control (enable + 1) <;> cases write <;> simp [lets]

theorem offset?_eq (w : TcmWindow) (size address : UInt32) (write : Bool) :
    w.offset? size address write =
      if lets w.state write = true ∧ w.start ≤ address ∧ address < w.stop then
        some ((address - w.start) &&& (size - 1))
      else none := by
  unfold TcmWindow.offset?
  refine if_congr ?_ rfl rfl
  cases w.state <;> simp [lets, and_assoc]

/-- An access lands in a tightly coupled memory if the window takes it, and then at the distance
from the window's base, as far as the memory goes. -/
theorem Settled.tcmOffset?_eq_some_iff (h : c.Settled) {address offset : UInt32} {write : Bool} :
    c.tcmOffset? tcm address write = some offset ↔
      c.Takes tcm write address.toNat ∧
        offset.toNat = (address.toNat - tcm.base c) % tcm.size.toNat := by
  have hwindow : c.tcmOffset? tcm address write =
      (c.window tcm).offset? tcm.size address write := by
    cases tcm <;> rfl
  have hstart : (c.window tcm).start.toNat = tcm.base c := h.window_start
  have hstop : (c.window tcm).stop.toNat = tcm.limit c := h.window_stop
  have hmask : ∀ x : UInt32, (x &&& (tcm.size - 1)).toNat = x.toNat % tcm.size.toNat := by
    intro x
    rw [UInt32.toNat_and]
    cases tcm with
    | data => exact Nat.and_two_pow_sub_one_eq_mod x.toNat 14
    | inst => exact Nat.and_two_pow_sub_one_eq_mod x.toNat 15
  have htakes : c.Takes tcm write address.toNat ↔ lets (c.window tcm).state write = true ∧
      (c.window tcm).start ≤ address ∧ address < (c.window tcm).stop := by
    rw [h.window_state, lets_windowState, UInt32.le_iff_toNat_le, UInt32.lt_iff_toNat_lt, hstart,
      hstop]
    unfold Takes
    rw [and_assoc]
  rw [hwindow, offset?_eq]
  by_cases hhit : c.Takes tcm write address.toNat
  · have hbase : (c.window tcm).start ≤ address := by
      rw [UInt32.le_iff_toNat_le, hstart]
      exact hhit.2.2.1
    rw [if_pos (htakes.mp hhit), Option.some.injEq, ← UInt32.toNat_inj, hmask,
      UInt32.toNat_sub_of_le _ _ hbase, hstart]
    exact ⟨fun heq => ⟨hhit, heq.symm⟩, fun heq => heq.2.symm⟩
  · rw [if_neg (mt htakes.mpr hhit)]
    exact ⟨nofun, fun heq => absurd heq.1 hhit⟩

theorem Settled.tcmOffset?_of_takes (h : c.Settled) {address : UInt32} {write : Bool}
    (takes : c.Takes tcm write address.toNat) :
    ∃ offset, c.tcmOffset? tcm address write = some offset ∧
      offset.toNat = (address.toNat - tcm.base c) % tcm.size.toNat := by
  have hoffset : (UInt32.ofNat ((address.toNat - tcm.base c) % tcm.size.toNat)).toNat =
      (address.toNat - tcm.base c) % tcm.size.toNat := by
    have hlt := address.toNat_lt
    refine UInt32.toNat_ofNat_of_lt ((Nat.mod_le _ _).trans_lt ?_)
    show address.toNat - tcm.base c < 2 ^ 32
    omega
  exact ⟨_, h.tcmOffset?_eq_some_iff.mpr ⟨takes, hoffset⟩, hoffset⟩

theorem Settled.tcmOffset?_of_passes (h : c.Settled) {address : UInt32} {write : Bool}
    (passes : ¬ c.Takes tcm write address.toNat) : c.tcmOffset? tcm address write = none :=
  Option.eq_none_iff_forall_ne_some.mpr fun _ hsome =>
    passes (h.tcmOffset?_eq_some_iff.mp hsome).1

end SystemControl
end Handheld.Console
