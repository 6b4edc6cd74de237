import Mathlib
import Handheld.Proofs.Console.Windows

/-!
# The windows that register writes program

What a window is may be read off a list of register writes alone: the last write to the control
register enables it, the last write to its own register places it and gives its size. Main
statement: after any writes an access lands in a tightly coupled memory exactly as these last
writes say, at the distance from the base modulo the size of the memory, except that the last byte
of the address space is in no window. Bases and sizes are natural numbers here, so that a window
may end at or beyond the end of the address space.
-/

namespace Handheld.Console

open Word

/-- A register of the coprocessor, by the operands of the transfer that reaches it. -/
structure ControlRegister where
  cn : UInt32
  cm : UInt32
  cp : UInt32
  deriving DecidableEq, Repr

/-- A write to a register of the coprocessor. -/
structure ControlWrite where
  register : ControlRegister
  value : UInt32
  deriving DecidableEq, Repr

/-! ## Last writes -/

/-- The value last written to a register, `start` if there was no write. -/
def lastWritten (writes : List ControlWrite) (register : ControlRegister) (start : UInt32) :
    UInt32 :=
  ((writes.reverse.find? (·.register = register)).map (·.value)).getD start

theorem lastWritten_append (writes : List ControlWrite) (w : ControlWrite)
    (register : ControlRegister) (start : UInt32) :
    lastWritten (writes ++ [w]) register start =
      if w.register = register then w.value else lastWritten writes register start := by
  unfold lastWritten
  rw [List.reverse_append, List.reverse_singleton, List.singleton_append, List.find?_cons]
  by_cases h : w.register = register <;> simp [h]

/-- What the control register was last set to. -/
def lastControl (writes : List ControlWrite) : UInt32 :=
  lastWritten writes ⟨1, 0, 0⟩ SystemControl.initial.control

namespace Tcm

/-- The register that describes a memory's window. -/
def controlRegister : Tcm → ControlRegister
  | data => ⟨9, 1, 0⟩
  | inst => ⟨9, 1, 1⟩

/-- What the register of a memory's window was last set to. -/
def lastRegister (writes : List ControlWrite) (tcm : Tcm) : UInt32 :=
  lastWritten writes tcm.controlRegister (tcm.register SystemControl.initial)

/-- The base that was last programmed. That of the instruction memory cannot be. -/
def lastBase (writes : List ControlWrite) : Tcm → Nat
  | data => (data.lastRegister writes).toNat / 0x1000 * 0x1000
  | inst => 0

/-- The size of the window that was last programmed. -/
def lastSpan (writes : List ControlWrite) (tcm : Tcm) : Nat :=
  512 * 2 ^ ((tcm.lastRegister writes).toNat / 2 % 32)

end Tcm

/-! ## What a write sets -/

theorem ControlRegister.eq_iff {r s : ControlRegister} :
    r = s ↔ r.cn.toNat = s.cn.toNat ∧ r.cm.toNat = s.cm.toNat ∧ r.cp.toNat = s.cp.toNat := by
  simp only [UInt32.toNat_inj]
  cases r
  cases s
  exact mk.injEq .. ▸ Iff.rfl

namespace SystemControl

/-- The coprocessor after a write. -/
def after (c : SystemControl) (w : ControlWrite) : SystemControl :=
  (c.write w.register.cn w.register.cm w.register.cp w.value).1

variable (c : SystemControl) (w : ControlWrite)

theorem control_after :
    (c.after w).control = if w.register = ⟨1, 0, 0⟩ then w.value else c.control := by
  by_cases h : w.register = ⟨1, 0, 0⟩
  · rw [if_pos h, after, h]
    rfl
  · rw [if_neg h]
    -- Of all registers that can be written, only one is the control register.
    unfold after SystemControl.write
    split
    case h_2 hn hm hp => exact absurd (ControlRegister.eq_iff.mpr ⟨hn, hm, hp⟩) h
    all_goals rfl

theorem register_after (tcm : Tcm) :
    tcm.register (c.after w) =
      if w.register = tcm.controlRegister then w.value else tcm.register c := by
  by_cases h : w.register = tcm.controlRegister
  · rw [if_pos h, after, h]
    cases tcm <;> rfl
  · rw [if_neg h]
    unfold after SystemControl.write
    split
    case h_17 hn hm hp =>
      cases tcm with
      | data => exact absurd (ControlRegister.eq_iff.mpr ⟨hn, hm, hp⟩) h
      | inst => rfl
    case h_18 hn hm hp =>
      cases tcm with
      | data => rfl
      | inst => exact absurd (ControlRegister.eq_iff.mpr ⟨hn, hm, hp⟩) h
    all_goals cases tcm <;> rfl

/-! ## What a list of writes sets -/

/-- The coprocessor after a list of writes from power-up on. -/
def afterWrites (writes : List ControlWrite) : SystemControl := writes.foldl after initial

theorem afterWrites_append (writes : List ControlWrite) (w : ControlWrite) :
    afterWrites (writes ++ [w]) = (afterWrites writes).after w := List.foldl_concat ..

theorem control_afterWrites (writes : List ControlWrite) :
    (afterWrites writes).control = lastControl writes := by
  induction writes using List.reverseRecOn with
  | nil => rfl
  | append_singleton writes w ih =>
    rw [afterWrites_append, control_after, ih]
    exact (lastWritten_append ..).symm

theorem register_afterWrites (writes : List ControlWrite) (tcm : Tcm) :
    tcm.register (afterWrites writes) = tcm.lastRegister writes := by
  induction writes using List.reverseRecOn with
  | nil => rfl
  | append_singleton writes w ih =>
    rw [afterWrites_append, register_after, ih]
    exact (lastWritten_append ..).symm

theorem settled_afterWrites (writes : List ControlWrite) : (afterWrites writes).Settled := by
  induction writes using List.reverseRecOn with
  | nil => exact settled_initial
  | append_singleton writes w ih =>
    rw [afterWrites_append]
    exact ih.write ..

theorem base_afterWrites (writes : List ControlWrite) (tcm : Tcm) :
    tcm.base (afterWrites writes) = tcm.lastBase writes := by
  cases tcm with
  | data =>
    show (Tcm.data.register (afterWrites writes)).toNat / 0x1000 * 0x1000 = _
    rw [register_afterWrites]
    rfl
  | inst => rfl

theorem span_afterWrites (writes : List ControlWrite) (tcm : Tcm) :
    tcm.span (afterWrites writes) = tcm.lastSpan writes := by
  unfold Tcm.span Tcm.lastSpan
  rw [register_afterWrites]

/-- **After any writes the windows are the programmed ones, less the last byte of the address
space.** An access at an address lands in a tightly coupled memory if and only if the last write to
the control register enabled the memory, it is a write or the load mode is off, and the address is
at least the base and less than the base and the size together. It then lands at the distance from
the base modulo the size of the memory. A window's end is kept in 32 bits and is not part of the
window, so a window that reaches the end of the address space lacks the address `0xFFFFFFFF`. -/
theorem windows_as_programmed (writes : List ControlWrite) (tcm : Tcm) (write : Bool)
    (address offset : UInt32) :
    (afterWrites writes).tcmOffset? tcm address write = some offset ↔
      (isBit (lastControl writes) tcm.enableBit = true ∧
        (write = true ∨ isBit (lastControl writes) (tcm.enableBit + 1) = false) ∧
        tcm.lastBase writes ≤ address.toNat ∧
        address.toNat < tcm.lastBase writes + tcm.lastSpan writes ∧
        address ≠ 0xFFFFFFFF) ∧
      offset.toNat = (address.toNat - tcm.lastBase writes) % tcm.size.toNat := by
  have hlast : address ≠ 0xFFFFFFFF ↔ address.toNat < 0xFFFFFFFF := by
    have hlt := address.toNat_lt
    have hgreatest : (0xFFFFFFFF : UInt32).toNat = 0xFFFFFFFF := rfl
    rw [Ne, ← UInt32.toNat_inj, hgreatest]
    omega
  rw [(settled_afterWrites writes).tcmOffset?_eq_some_iff, Takes, Tcm.limit, lt_min_iff,
    control_afterWrites, base_afterWrites, span_afterWrites, hlast]

/-- The instruction memory of 4 GiB, which takes every address but the last. -/
example :
    (afterWrites [⟨Tcm.inst.controlRegister, 46⟩]).tcmOffset? .inst 0xFFFFFFFE false =
        some 0x7FFE ∧
      (afterWrites [⟨Tcm.inst.controlRegister, 46⟩]).tcmOffset? .inst 0xFFFFFFFF false = none :=
  ⟨rfl, rfl⟩

end SystemControl
end Handheld.Console
