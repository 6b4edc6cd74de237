import Handheld.Checked.State
import Handheld.Proofs.Checked.Operators
import Handheld.Proofs.Cpu.RegisterFile

/-!
# The state of a processor with checked ranges

Nothing that is calculated from the state of a processor leaves its range, and no table is looked
into past its end: sizes and flags, conditions, the registers of the other modes, the vectors of
the exceptions.
-/

namespace Handheld

open Word

namespace Address

theorem alignDownChecked_eq (address : UInt32) {size : UInt32} (h : size ≠ 0) :
    alignDownChecked address size = .ok (alignDown address size) := by
  have hone : (1 : UInt32) ≤ size := UInt32.le_iff_toNat_le.mpr (Checked.toNat_pos h)
  rw [alignDownChecked, Checked.sub_eq hone]
  rfl

end Address

namespace CpuState

variable (s : CpuState)

/-! ## Status -/

@[simp] theorem isFlagChecked_eq (f : Flag) : s.isFlagChecked f = .ok (s.isFlag f) :=
  Checked.isBit_word s.cpsr f.position_lt

@[simp] theorem setFlagChecked_eq (f : Flag) (state : Bool) :
    s.setFlagChecked f state = .ok (s.setFlag f state) := by
  rw [setFlagChecked, Checked.setBit_eq (α := UInt32) f.position_lt]
  rfl

@[simp] theorem instructionSizeChecked_eq :
    s.instructionSizeChecked = .ok s.instructionSize := by
  rw [instructionSizeChecked, isFlagChecked_eq, Checked.ok_bind, instructionSize]
  cases s.isFlag .thumb <;> rfl

theorem instructionSize_ne_zero : s.instructionSize ≠ 0 := by
  unfold instructionSize
  split_ifs <;> decide

@[simp] theorem alignDownChecked_instructionSize (address : UInt32) :
    Address.alignDownChecked address s.instructionSize =
      .ok (Address.alignDown address s.instructionSize) :=
  Address.alignDownChecked_eq address s.instructionSize_ne_zero

@[simp] theorem executingChecked_eq : s.executingChecked = .ok s.executing := by
  rw [executingChecked, pipelineOffsetChecked, instructionSizeChecked_eq, Checked.ok_bind,
    executing, pipelineOffset, instructionSize]
  cases s.isFlag .thumb <;> rfl

@[simp] theorem holdsChecked_eq (condition : Fin 16) :
    s.holdsChecked condition = .ok (s.holds condition) := by
  have hflags : (s.cpsr >>> 28).toNat < 16 := by
    rw [UInt32.toNat_shiftRight, Nat.shiftRight_eq_div_pow]
    have := s.cpsr.toNat_lt
    show s.cpsr.toNat / 2 ^ 28 < 16
    omega
  rw [holdsChecked, Checked.shiftLeft_eq (α := UInt16) hflags]
  rfl

/-! ## Banks -/

/-- The registers of which there is a copy for fast interrupts are five. -/
theorem fastIndex_eq : ∀ (r : Register) (h : 8 ≤ r.val ∧ r.val ≤ 12),
    fastIndex r = .ok ⟨r.val - 8, Nat.lt_succ_of_le (Nat.sub_le_sub_right h.2 8)⟩ := by
  decide

theorem storeFast_eq : s.storeFast fastRegisters s.fiqs = .ok s.storeBanks.fiqs := by
  refine congrArg Except.ok (Vector.ext fun i hi => ?_)
  interval_cases i <;> simp [storeBanks, reg]

@[simp] theorem storeBanksChecked_eq : s.storeBanksChecked = .ok s.storeBanks := by
  rw [storeBanksChecked, storeFast_eq]
  rfl

@[simp] theorem loadBanksChecked_eq : s.loadBanksChecked = .ok s.loadBanks := by
  have hcopy : ∀ (i : ℕ) (hi : i < 5),
      (if s.mode = .fiq then s.fiqs.map (·.fiq) else s.fiqs.map (·.shared))[i] =
        if s.mode = .fiq then s.fiqs[i].fiq else s.fiqs[i].shared := by
    intro i hi
    split_ifs <;> exact Vector.getElem_map _ hi
  simp only [loadBanks, hcopy]
  rfl

@[simp] theorem setCpsrChecked_eq (value : UInt32) :
    s.setCpsrChecked value = .ok (s.setCpsr value) := by
  rw [setCpsrChecked, storeBanksChecked_eq, Checked.ok_bind, loadBanksChecked_eq]
  rfl

@[simp] theorem setModeChecked_eq (m : Mode) : s.setModeChecked m = .ok (s.setMode m) :=
  setCpsrChecked_eq s _

@[simp] theorem slotOfChecked_eq (m : Mode) (r : Register) :
    s.slotOfChecked m r = .ok (s.slotOf m r) := by
  unfold slotOfChecked slotOf
  dsimp only
  by_cases hfast : 8 ≤ r.val ∧ r.val ≤ 12
  · rw [dif_pos hfast, fastIndex_eq r hfast, Checked.ok_bind]
    by_cases hother : ((m == .fiq) != (s.mode == .fiq)) = true
    · rw [if_pos ⟨hfast.1, hfast.2, hother⟩, if_pos hother]
      rfl
    · have hsp : r ≠ Register.sp := fun h => absurd hfast.2 (by rw [h]; decide)
      have hlr : r ≠ Register.lr := fun h => absurd hfast.2 (by rw [h]; decide)
      rw [if_neg (fun h => hother h.2.2), if_neg hother, if_neg (fun h => hsp h.1),
        if_neg (fun h => hlr h.1)]
      rfl
  · rw [dif_neg hfast, if_neg (fun h => hfast ⟨h.1, h.2.1⟩)]
    simp only [Checked.pure_eq, Checked.ite_ok]

@[simp] theorem regInModeChecked_eq (m : Mode) (r : Register) :
    s.regInModeChecked m r = .ok (s.regInMode m r) := by
  rw [regInModeChecked, slotOfChecked_eq]
  rfl

@[simp] theorem setRegInModeChecked_eq (m : Mode) (r : Register) (value : UInt32) :
    s.setRegInModeChecked m r value = .ok (s.setRegInMode m r value) := by
  rw [setRegInModeChecked, slotOfChecked_eq]
  rfl

end CpuState

/-! ## Exceptions -/

namespace Exception

@[simp] theorem vectorChecked_eq (e : Exception) : e.vectorChecked = .ok e.vector := by
  cases e <;> rfl

@[simp] theorem modeChecked_eq (e : Exception) : e.modeChecked = .ok e.mode := by
  cases e <;> rfl

end Exception
end Handheld
