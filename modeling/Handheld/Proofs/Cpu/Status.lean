import Handheld.Arm.Execute
import Handheld.Proofs.Word

/-!
# Status registers

The mode that a status chooses, and every bit of a status after the flags of a result were placed
in it.
-/

namespace Handheld

open Word

theorem Flag.position_lt (f : Flag) : f.position < 32 := by cases f <;> decide

/-! ## The mode -/

/-- The mode is in the lowest five bits of a status. -/
theorem Mode.ofStatus_eq_of_and {v w : UInt32} (h : v &&& 0x1F = w &&& 0x1F) :
    Mode.ofStatus v = Mode.ofStatus w := by
  unfold Mode.ofStatus
  rw [h]

/-- No flag is among the bits that choose the mode. -/
theorem Mode.ofStatus_setBit (status : UInt32) (f : Flag) (state : Bool) :
    Mode.ofStatus (setBit status f.position state) = Mode.ofStatus status := by
  apply Mode.ofStatus_eq_of_and
  have hnew : (Word.ofNat state.toNat <<< Word.ofNat f.position : UInt32) &&& 0x1F = 0 := by
    cases f <;> cases state <;> rfl
  have hold : ~~~(Word.ofNat 1 <<< Word.ofNat f.position : UInt32) &&& 0x1F = 0x1F := by
    cases f <;> rfl
  show (status &&& ~~~(Word.ofNat 1 <<< Word.ofNat f.position : UInt32) |||
    (Word.ofNat state.toNat <<< Word.ofNat f.position : UInt32)) &&& 0x1F = _
  rw [or_and, UInt32.and_assoc, hold, hnew, UInt32.or_zero]

/-- The mode that was put into a status is the one that it chooses. -/
theorem Mode.ofStatus_or_toBits (status : UInt32) (m : Mode) :
    Mode.ofStatus ((status &&& ~~~0x1F) ||| m.toBits) = m := by
  have hold : (~~~0x1F : UInt32) &&& 0x1F = 0 := by rfl
  refine (Mode.ofStatus_eq_of_and ?_).trans (Mode.ofStatus_toBits m)
  rw [or_and, UInt32.and_assoc, hold, UInt32.and_zero, UInt32.zero_or]

/-! ## Conditions -/

/-- All sixteen combinations of the flags are in the mask of the condition that always holds. -/
theorem CpuState.holds_always (s : CpuState) : s.holds 14 = true := by
  have hall : ∀ k : Fin 16, isBit (0xFFFF : UInt16) k.val = true := by decide
  have hshift : (28 : UInt32).toNat % 32 = 28 := rfl
  have hlt : (s.cpsr >>> 28).toNat < 16 := by
    have hstatus := s.cpsr.toNat_lt
    rw [UInt32.toNat_shiftRight, hshift, Nat.shiftRight_eq_div_pow]
    omega
  exact hall ⟨(s.cpsr >>> 28).toNat, hlt⟩

/-! ## The flags of a result -/

namespace Arithmetic

/-- A result replaces the negative and the zero flag. -/
theorem isBit_withNZ (status value : UInt32) {i : ℕ} (hi : i < 32) :
    isBit (withNZ status value) i =
      if i = 31 then isBit value 31
      else if i = 30 then decide (value = 0)
      else isBit status i := by
  have hkept : ∀ j : Fin 32, isBit (0x3FFFFFFF : UInt32) j = decide (j.val < 30) := by decide
  have hsign : ∀ j : Fin 32, isBit (0x80000000 : UInt32) j = decide (j.val = 31) := by decide
  have hbit : ∀ j : Fin 32, isBit (0x40000000 : UInt32) j = decide (j.val = 30) := by decide
  have hempty : ∀ j : Fin 32, isBit (0 : UInt32) j = false := by decide
  have hzero : isBit (if value = 0 then (0x40000000 : UInt32) else 0) i =
      (decide (value = 0) && decide (i = 30)) := by
    split
    · next h => simpa [h] using hbit ⟨i, hi⟩
    · next h => simpa [h] using hempty ⟨i, hi⟩
  rw [withNZ, isBit_or _ _ hi, isBit_or _ _ hi, isBit_and _ _ hi, isBit_and _ _ hi, hzero,
    hkept ⟨i, hi⟩, hsign ⟨i, hi⟩]
  by_cases hn : i = 31
  · simp [hn]
  · by_cases hz : i = 30
    · simp [hz]
    · have hlow : i < 30 := by omega
      simp [hn, hz, hlow]

/-- The carry has its place below the other two. -/
theorem withNZC_eq (status value : UInt32) (carry : Bool) :
    withNZC status value carry =
      withNZ (status &&& 0x1FFFFFFF) value ||| (if carry then 0x20000000 else 0) := by
  rw [withNZC, withNZ, UInt32.and_assoc]
  rfl

/-- A result with a carry replaces the negative, the zero and the carry flag. -/
theorem isBit_withNZC (status value : UInt32) (carry : Bool) {i : ℕ} (hi : i < 32) :
    isBit (withNZC status value carry) i =
      if i = 31 then isBit value 31
      else if i = 30 then decide (value = 0)
      else if i = 29 then carry
      else isBit status i := by
  have hkept : ∀ j : Fin 32, isBit (0x1FFFFFFF : UInt32) j = decide (j.val < 29) := by decide
  have hcarry : ∀ j : Fin 32, isBit (if carry then (0x20000000 : UInt32) else 0) j =
      (carry && decide (j.val = 29)) := by
    cases carry <;> decide
  rw [withNZC_eq, isBit_or _ _ hi, isBit_withNZ _ _ hi, isBit_and _ _ hi, hkept ⟨i, hi⟩,
    hcarry ⟨i, hi⟩]
  by_cases hn : i = 31
  · simp [hn]
  · by_cases hz : i = 30
    · simp [hz]
    · by_cases hc : i = 29
      · simp [hc]
      · have hlow : i < 29 := by omega
        simp [hn, hz, hc, hlow]

/-- A sum replaces all four flags. -/
theorem isBit_withSum (status : UInt32) (sum : Sum32) {i : ℕ} (hi : i < 32) :
    isBit (withSum status sum) i =
      if i = 31 then isBit sum.value 31
      else if i = 30 then decide (sum.value = 0)
      else if i = 29 then sum.carry
      else if i = 28 then sum.overflow
      else isBit status i := by
  rw [withSum, isBit_setBit _ _ (by decide) hi, isBit_withNZC _ _ _ hi]
  by_cases hv : i = 28
  · simp [hv]
  · simp [hv]

end Arithmetic

/-- The outcome of a data-processing operation leaves the bits below the flags alone. -/
theorem Core.isBit_aluOutcome (result : UInt32 ⊕ Sum32) (carry : Bool) (status : UInt32) {i : ℕ}
    (hi : i < 28) : isBit (aluOutcome result carry status).2 i = isBit status i := by
  have h28 : i ≠ 28 := by omega
  have h29 : i ≠ 29 := by omega
  have h30 : i ≠ 30 := by omega
  have h31 : i ≠ 31 := by omega
  cases result with
  | inl value =>
    refine (Arithmetic.isBit_withNZC status value carry (by omega)).trans ?_
    simp [h29, h30, h31]
  | inr sum =>
    refine (Arithmetic.isBit_withSum status sum (by omega)).trans ?_
    simp [h28, h29, h30, h31]

end Handheld
