import Mathlib
import Handheld.Cpu.State

/-!
# The banked register file

What the active registers and the banks of a processor stand for together: a file of registers
that each exist once, whatever mode looks at them. The active set shadows the banks of the
current mode, so a register of the file is found in the active set or in a bank, never in both.

* `Register.physical` names the register of the file behind a register of a mode;
* `CpuState.file` reads the file off a processor's state;
* `file_applyOperation` and `file_foldl_applyOperation` say that the state's operations act on the
  file as they should, one operation at a time and over any sequence of them.
-/

namespace Handheld

/-! ## Names -/

namespace Register

theorem high_lt (i : Fin 5) : i.val + 8 < 16 := by omega

/-- The registers of which the fast interrupt mode has its own copies, r8 to r12. -/
def high (i : Fin 5) : Register := ⟨i.val + 8, high_lt i⟩

/-- The five kinds of registers. -/
theorem kinds (r : Register) :
    (∃ l : LowRegister, r = l.wide) ∨ (∃ i, r = high i) ∨ r = sp ∨ r = lr ∨ r = pc := by
  by_cases hlow : r.val < 8
  · exact Or.inl ⟨⟨r.val, hlow⟩, rfl⟩
  · by_cases hhigh : r.val ≤ 12
    · exact Or.inr (Or.inl ⟨⟨r.val - 8, by omega⟩, Fin.ext (by simp only [high]; omega)⟩)
    · simp only [Fin.ext_iff, sp, lr, pc]
      omega

@[simp] theorem val_sp : sp.val = 13 := rfl

@[simp] theorem val_lr : lr.val = 14 := rfl

@[simp] theorem val_pc : pc.val = 15 := rfl

theorem wide_ne_sp (l : LowRegister) : l.wide ≠ sp := by
  simp only [ne_eq, Fin.ext_iff, LowRegister.wide, Fin.val_castLE, sp]
  omega

theorem wide_ne_lr (l : LowRegister) : l.wide ≠ lr := by
  simp only [ne_eq, Fin.ext_iff, LowRegister.wide, Fin.val_castLE, lr]
  omega

theorem high_ne_sp (i : Fin 5) : high i ≠ sp := by
  simp only [ne_eq, Fin.ext_iff, high, sp]
  omega

theorem high_ne_lr (i : Fin 5) : high i ≠ lr := by
  simp only [ne_eq, Fin.ext_iff, high, lr]
  omega

theorem nodup_ofSet (set : UInt16) : (ofSet set).Nodup := (List.nodup_finRange 16).filter _

theorem length_ofSet_le (set : UInt16) : (ofSet set).length ≤ 16 := by
  calc (ofSet set).length ≤ (List.finRange 16).length := List.length_filter_le _ _
    _ = 16 := List.length_finRange

end Register

/-- A register of the file itself. -/
inductive PhysicalRegister where
  /-- r0 to r7, which all modes share. -/
  | low (r : LowRegister)
  /-- r8 to r12, once for the fast interrupt mode and once for all others. -/
  | high (i : Fin 5) (fiq : Bool)
  | sp (bank : Fin 6)
  | lr (bank : Fin 6)
  | pc
  deriving DecidableEq, Repr

/-- The number that a register of the file has in every mode that sees it. -/
def PhysicalRegister.number : PhysicalRegister → Register
  | .low l => l.wide
  | .high i _ => Register.high i
  | .sp _ => Register.sp
  | .lr _ => Register.lr
  | .pc => Register.pc

namespace Register

/-- The register of the file behind a register of a mode. -/
def physical (m : Mode) (r : Register) : PhysicalRegister :=
  if h : r.val < 8 then .low ⟨r.val, h⟩
  else if h : r.val ≤ 12 then .high ⟨r.val - 8, by omega⟩ (m == .fiq)
  else if r = sp then .sp m.bank
  else if r = lr then .lr m.bank
  else .pc

@[simp] theorem physical_wide (m : Mode) (l : LowRegister) : physical m l.wide = .low l := by
  simp [physical, LowRegister.wide]

@[simp] theorem physical_high (m : Mode) (i : Fin 5) :
    physical m (high i) = .high i (m == .fiq) := by
  have hi : i.val ≤ 4 := by omega
  simp [physical, high, hi]

@[simp] theorem physical_sp (m : Mode) : physical m sp = .sp m.bank := rfl

@[simp] theorem physical_lr (m : Mode) : physical m lr = .lr m.bank := rfl

@[simp] theorem physical_pc (m : Mode) : physical m pc = .pc := rfl

/-- The file keeps registers of different numbers apart. -/
theorem number_physical (m : Mode) (r : Register) : (physical m r).number = r := by
  rcases kinds r with ⟨l, rfl⟩ | ⟨i, rfl⟩ | rfl | rfl | rfl
  · rw [physical_wide, PhysicalRegister.number]
  · rw [physical_high, PhysicalRegister.number]
  · rfl
  · rfl
  · rfl

/-- Registers that share a place have the same number. -/
theorem eq_of_physical {m m' : Mode} {r r' : Register} (h : physical m r = physical m' r') :
    r = r' := by
  have hnumber := congrArg PhysicalRegister.number h
  rwa [number_physical, number_physical] at hnumber

/-- Two registers of modes are one in the file if they have the same number and the modes do not
keep that number apart. -/
theorem physical_eq_iff (m m' : Mode) (r r' : Register) :
    physical m r = physical m' r' ↔
      r = r' ∧ (8 ≤ r.val ∧ r.val ≤ 12 → (m = .fiq ↔ m' = .fiq)) ∧
        (r = sp ∨ r = lr → m.bank = m'.bank) := by
  by_cases hr : r = r'
  · subst hr
    rcases kinds r with ⟨l, rfl⟩ | ⟨i, rfl⟩ | rfl | rfl | rfl
    · have hl : l.wide.val < 8 := l.isLt
      simp [wide_ne_sp, wide_ne_lr]
      omega
    · have hi : 8 ≤ (high i).val ∧ (high i).val ≤ 12 := by
        simp only [high]
        omega
      simp [high_ne_sp, high_ne_lr, hi]
    · simp
    · simp
    · simp [show ¬ (pc = sp ∨ pc = lr) by decide]
  · have hne : physical m r ≠ physical m' r' := fun h => hr (eq_of_physical h)
    simp [hne, hr]

end Register

/-- A file of registers with the status registers beside it. -/
@[ext]
structure RegisterFile where
  contents : PhysicalRegister → UInt32
  status : UInt32
  saved : Fin 6 → UInt32

/-- An operation on the registers of a processor. -/
inductive BankOperation where
  | setCpsr (value : UInt32)
  | setMode (m : Mode)
  | setRegInMode (m : Mode) (r : Register) (value : UInt32)
  | setSavedStatus (value : UInt32)
  deriving Repr

namespace RegisterFile

/-- The mode that the status chooses. -/
def mode (f : RegisterFile) : Mode := Mode.ofStatus f.status

/-- A register as a mode sees it. -/
def view (f : RegisterFile) (m : Mode) (r : Register) : UInt32 := f.contents (r.physical m)

/-- What an operation does to the file. A change of the status leaves every register alone. -/
def apply (f : RegisterFile) : BankOperation → RegisterFile
  | .setCpsr value => { f with status := value }
  | .setMode m => { f with status := (f.status &&& ~~~0x1F) ||| m.toBits }
  | .setRegInMode m r value =>
    { f with contents := Function.update f.contents (r.physical m) value }
  | .setSavedStatus value =>
    if f.mode.hasSavedStatus then { f with saved := Function.update f.saved f.mode.bank value }
    else f

end RegisterFile

namespace CpuState

/-- What an operation does to the state. -/
def applyOperation (s : CpuState) : BankOperation → CpuState
  | .setCpsr value => s.setCpsr value
  | .setMode m => s.setMode m
  | .setRegInMode m r value => s.setRegInMode m r value
  | .setSavedStatus value => s.setSavedStatus value

/-- A register of the file: the active copy where the current mode sees it, its bank elsewhere. -/
def physicalValue (s : CpuState) : PhysicalRegister → UInt32
  | .low l => s.reg l.wide
  | .high i fiq =>
    if fiq = (s.mode == .fiq) then s.reg (Register.high i)
    else if fiq then (s.fiqs.get i).fiq else (s.fiqs.get i).shared
  | .sp bank => if bank = s.mode.bank then s.reg Register.sp else s.sp.get bank
  | .lr bank => if bank = s.mode.bank then s.reg Register.lr else s.lr.get bank
  | .pc => s.reg Register.pc

/-- The file that a state stands for. -/
def file (s : CpuState) : RegisterFile where
  contents := s.physicalValue
  status := s.cpsr
  saved := fun bank => s.spsr.get bank

/-! ## Reading -/

theorem slotOf_wide (s : CpuState) (m : Mode) (l : LowRegister) :
    s.slotOf m l.wide = .active l.wide := by
  have hl : l.wide.val < 8 := l.isLt
  unfold slotOf
  rw [dif_neg (by omega), if_neg (fun h => Register.wide_ne_sp l h.1),
    if_neg (fun h => Register.wide_ne_lr l h.1)]

theorem slotOf_high (s : CpuState) (m : Mode) (i : Fin 5) :
    s.slotOf m (Register.high i) =
      if (m == .fiq) = (s.mode == .fiq) then .active (Register.high i) else .fiq i (m == .fiq) := by
  have hi : 8 ≤ (Register.high i).val ∧ (Register.high i).val ≤ 12 := by
    simp only [Register.high]; omega
  unfold slotOf
  rw [dif_pos hi]
  by_cases h : (m == .fiq) = (s.mode == .fiq)
  · rw [if_pos h, if_neg (by rw [h]; simp)]
  · rw [if_neg h, if_pos (bne_iff_ne.mpr h)]
    rfl

theorem slotOf_sp (s : CpuState) (m : Mode) :
    s.slotOf m Register.sp =
      if m.bank = s.mode.bank then .active Register.sp else .sp m.bank := by
  unfold slotOf
  rw [dif_neg (by decide)]
  by_cases h : m.bank = s.mode.bank
  · simp [h]
  · simp [h, Register.sp]

theorem slotOf_lr (s : CpuState) (m : Mode) :
    s.slotOf m Register.lr =
      if m.bank = s.mode.bank then .active Register.lr else .lr m.bank := by
  unfold slotOf
  rw [dif_neg (by decide)]
  by_cases h : m.bank = s.mode.bank
  · simp [h]
  · simp [h, Register.sp, Register.lr]

theorem slotOf_pc (s : CpuState) (m : Mode) : s.slotOf m Register.pc = .active Register.pc := rfl

/-- A register that the current mode sees, too, is in the active set. -/
theorem slotOf_of_seen {s : CpuState} {m : Mode} {r : Register}
    (h : r.physical m = r.physical s.mode) : s.slotOf m r = .active r := by
  rcases Register.kinds r with ⟨l, rfl⟩ | ⟨i, rfl⟩ | rfl | rfl | rfl
  · exact slotOf_wide s m l
  · rw [slotOf_high, if_pos (by simpa using h)]
  · rw [slotOf_sp, if_pos (by simpa using h)]
  · rw [slotOf_lr, if_pos (by simpa using h)]
  · rfl

/-- The register that the state shows for a mode is the one that the file holds. -/
theorem regInMode_eq_view (s : CpuState) (m : Mode) (r : Register) :
    s.regInMode m r = s.file.view m r := by
  unfold regInMode RegisterFile.view file
  rcases Register.kinds r with ⟨l, rfl⟩ | ⟨i, rfl⟩ | rfl | rfl | rfl
  · rw [slotOf_wide, Register.physical_wide]
    rfl
  · rw [slotOf_high, Register.physical_high]
    simp only [physicalValue]
    cases hm : (m == Mode.fiq) <;> split <;> rfl
  · rw [slotOf_sp, Register.physical_sp]
    simp only [physicalValue]
    split <;> rfl
  · rw [slotOf_lr, Register.physical_lr]
    simp only [physicalValue]
    split <;> rfl
  · rw [slotOf_pc]
    rfl

/-! ## Changes of the status -/

theorem reg_high (s : CpuState) (i : Fin 5) :
    s.reg (Register.high i) = s.registers.get (Register.high i) := rfl

/-- Of the registers that are fetched from banks, the five middle ones come in order. -/
theorem getElem_set_high (registers : Vector UInt32 16) (values : Vector UInt32 5)
    (sp lr : UInt32) {i : Nat} (hi : i < 5) :
    (registers |>.set 8 values[0] |>.set 9 values[1] |>.set 10 values[2] |>.set 11 values[3]
      |>.set 12 values[4] |>.set 13 sp |>.set 14 lr)[i + 8] = values[i] := by
  have hcases : i = 0 ∨ i = 1 ∨ i = 2 ∨ i = 3 ∨ i = 4 := by omega
  rcases hcases with rfl | rfl | rfl | rfl | rfl <;> simp

/-- Once the active registers are stored back, the banks of r8 to r12 hold the file. -/
theorem fiqs_storeBanks (s : CpuState) (i : Fin 5) (fiq : Bool) :
    (if fiq then (s.storeBanks.fiqs.get i).fiq else (s.storeBanks.fiqs.get i).shared) =
      s.physicalValue (.high i fiq) := by
  simp only [storeBanks, Vector.get_eq_getElem, Fin.getElem_fin, Vector.getElem_ofFn,
    physicalValue, reg, Register.high]
  by_cases hold : s.mode = .fiq <;> cases fiq <;> simp [hold]

theorem reg_setCpsr_wide (s : CpuState) (value : UInt32) (l : LowRegister) :
    (s.setCpsr value).reg l.wide = s.reg l.wide := by
  -- None of the registers that are fetched from banks is one of the low ones.
  have hl : l.wide.val < 8 := l.isLt
  simp only [setCpsr, loadBanks, storeBanks, reg, Fin.getElem_fin]
  repeat rw [Vector.getElem_set_ne _ _ (by omega)]

/-- After a change of the status the active registers are what the file held for the new mode. -/
theorem reg_setCpsr_high (s : CpuState) (value : UInt32) (i : Fin 5) :
    (s.setCpsr value).reg (Register.high i) =
      s.physicalValue (.high i (Mode.ofStatus value == .fiq)) := by
  rw [← fiqs_storeBanks, reg_high]
  simp only [setCpsr, loadBanks, Vector.get_eq_getElem, Register.high]
  rw [getElem_set_high _ _ _ _ i.isLt]
  by_cases hnew : Mode.ofStatus value = .fiq <;> simp [mode, hnew]

theorem sp_setCpsr (s : CpuState) (value : UInt32) (bank : Fin 6) :
    (s.setCpsr value).sp.get bank = s.physicalValue (.sp bank) := by
  simp only [setCpsr, loadBanks, storeBanks, physicalValue, Vector.get_eq_getElem,
    Vector.getElem_set, Fin.ext_iff, eq_comm]

theorem lr_setCpsr (s : CpuState) (value : UInt32) (bank : Fin 6) :
    (s.setCpsr value).lr.get bank = s.physicalValue (.lr bank) := by
  simp only [setCpsr, loadBanks, storeBanks, physicalValue, Vector.get_eq_getElem,
    Vector.getElem_set, Fin.ext_iff, eq_comm]

theorem reg_setCpsr_sp (s : CpuState) (value : UInt32) :
    (s.setCpsr value).reg Register.sp = s.physicalValue (.sp (Mode.ofStatus value).bank) := by
  rw [← sp_setCpsr s value]
  simp [setCpsr, loadBanks, reg, mode, Vector.get_eq_getElem]

theorem reg_setCpsr_lr (s : CpuState) (value : UInt32) :
    (s.setCpsr value).reg Register.lr = s.physicalValue (.lr (Mode.ofStatus value).bank) := by
  rw [← lr_setCpsr s value]
  simp [setCpsr, loadBanks, reg, mode, Vector.get_eq_getElem]

theorem reg_setCpsr_pc (s : CpuState) (value : UInt32) :
    (s.setCpsr value).reg Register.pc = s.reg Register.pc := by
  simp [setCpsr, loadBanks, storeBanks, reg]

/-- A change of the status moves registers between the active set and the banks, but leaves the
file as it is: a copy that the new mode does not see has been stored back. -/
theorem physicalValue_setCpsr (s : CpuState) (value : UInt32) :
    (s.setCpsr value).physicalValue = s.physicalValue := by
  funext p
  cases p with
  | low l => exact reg_setCpsr_wide s value l
  | high i fiq =>
    show (if fiq = (Mode.ofStatus value == .fiq) then _ else _) = _
    by_cases hnew : fiq = (Mode.ofStatus value == .fiq)
    · rw [if_pos hnew, reg_setCpsr_high, ← hnew]
    · rw [if_neg hnew]
      exact fiqs_storeBanks s i fiq
  | sp bank =>
    show (if bank = (Mode.ofStatus value).bank then _ else _) = _
    by_cases hnew : bank = (Mode.ofStatus value).bank
    · rw [if_pos hnew, reg_setCpsr_sp, hnew]
    · rw [if_neg hnew, sp_setCpsr]
  | lr bank =>
    show (if bank = (Mode.ofStatus value).bank then _ else _) = _
    by_cases hnew : bank = (Mode.ofStatus value).bank
    · rw [if_pos hnew, reg_setCpsr_lr, hnew]
    · rw [if_neg hnew, lr_setCpsr]
  | pc => exact reg_setCpsr_pc s value

/-! ## Writes -/

@[simp] theorem reg_setReg (s : CpuState) (r r' : Register) (value : UInt32) :
    (s.setReg r value).reg r' = if r' = r then value else s.reg r' := by
  simp only [setReg, reg, Fin.getElem_fin, Vector.getElem_set, Fin.ext_iff, eq_comm]

/-- Where the current mode finds a register of the file, if it sees it. -/
theorem physicalValue_eq_reg (s : CpuState) (r : Register) :
    s.physicalValue (r.physical s.mode) = s.reg r := by
  rcases Register.kinds r with ⟨l, rfl⟩ | ⟨i, rfl⟩ | rfl | rfl | rfl <;> simp [physicalValue]

theorem physicalValue_setReg (s : CpuState) (r : Register) (value : UInt32) :
    (s.setReg r value).physicalValue =
      Function.update s.physicalValue (r.physical s.mode) value := by
  funext p
  have hmode : (s.setReg r value).mode = s.mode := rfl
  by_cases hp : p = r.physical s.mode
  · subst hp
    rw [Function.update_self, ← hmode, physicalValue_eq_reg, reg_setReg, if_pos rfl]
  · rw [Function.update_of_ne hp]
    -- Where the file looks into the active set, it finds another register than the one written.
    have key : ∀ r', p = r'.physical s.mode → (s.setReg r value).reg r' = s.reg r' := by
      intro r' h
      rw [reg_setReg, if_neg]
      rintro rfl
      exact hp h
    cases p with
    | low l => exact key l.wide (by simp)
    | high i fiq =>
      simp only [physicalValue, hmode]
      split
      · next h => exact key _ (by simp [h])
      · rfl
    | sp bank =>
      simp only [physicalValue, hmode]
      split
      · next h => exact key _ (by simp [h])
      · rfl
    | lr bank =>
      simp only [physicalValue, hmode]
      split
      · next h => exact key _ (by simp [h])
      · rfl
    | pc => exact key Register.pc rfl

theorem physicalValue_setSlot_fiq (s : CpuState) {i : Fin 5} {fiq : Bool}
    (h : fiq ≠ (s.mode == .fiq)) (value : UInt32) :
    (s.setSlot value (.fiq i fiq)).physicalValue =
      Function.update s.physicalValue (.high i fiq) value := by
  funext p
  cases p with
  | high j f =>
    rw [Function.update_apply]
    have hmode : (s.setSlot value (.fiq i fiq)).mode = s.mode := by cases fiq <;> rfl
    have hreg : (s.setSlot value (.fiq i fiq)).reg (Register.high j) = s.reg (Register.high j) := by
      cases fiq <;> rfl
    simp only [physicalValue, hmode, hreg]
    by_cases hi : j = i
    · subst hi
      cases fiq <;> cases f <;> simp [setSlot, Vector.get_eq_getElem, h]
    · have hval : i.val ≠ j.val := fun e => hi (Fin.ext e.symm)
      cases fiq <;> cases f <;> simp [setSlot, Vector.get_eq_getElem, hi, hval]
  | low | sp | lr | pc => cases fiq <;> rfl

theorem physicalValue_setSlot_sp (s : CpuState) {bank : Fin 6} (h : bank ≠ s.mode.bank)
    (value : UInt32) :
    (s.setSlot value (.sp bank)).physicalValue =
      Function.update s.physicalValue (.sp bank) value := by
  funext p
  cases p with
  | sp b =>
    rw [Function.update_apply]
    show (if b = s.mode.bank then s.reg Register.sp else (s.sp.set bank value).get b) = _
    by_cases hb : b = bank
    · subst hb
      simp [Vector.get_eq_getElem, h]
    · have hval : bank.val ≠ b.val := fun e => hb (Fin.ext e.symm)
      simp [physicalValue, Vector.get_eq_getElem, hb, hval]
  | low | high | lr | pc => rfl

theorem physicalValue_setSlot_lr (s : CpuState) {bank : Fin 6} (h : bank ≠ s.mode.bank)
    (value : UInt32) :
    (s.setSlot value (.lr bank)).physicalValue =
      Function.update s.physicalValue (.lr bank) value := by
  funext p
  cases p with
  | lr b =>
    rw [Function.update_apply]
    show (if b = s.mode.bank then s.reg Register.lr else (s.lr.set bank value).get b) = _
    by_cases hb : b = bank
    · subst hb
      simp [Vector.get_eq_getElem, h]
    · have hval : bank.val ≠ b.val := fun e => hb (Fin.ext e.symm)
      simp [physicalValue, Vector.get_eq_getElem, hb, hval]
  | low | high | sp | pc => rfl

/-- A write through a mode changes the register of the file that the mode names, and no other. -/
theorem physicalValue_setRegInMode (s : CpuState) (m : Mode) (r : Register) (value : UInt32) :
    (s.setRegInMode m r value).physicalValue =
      Function.update s.physicalValue (r.physical m) value := by
  unfold setRegInMode
  by_cases hseen : r.physical m = r.physical s.mode
  · -- The current mode sees the register as well, so the active copy is written.
    rw [slotOf_of_seen hseen, hseen]
    exact physicalValue_setReg s r value
  · rcases Register.kinds r with ⟨l, rfl⟩ | ⟨i, rfl⟩ | rfl | rfl | rfl
    · simp at hseen
    · have hfiq : (m == .fiq) ≠ (s.mode == .fiq) := by simpa using hseen
      rw [slotOf_high, if_neg hfiq, Register.physical_high]
      exact physicalValue_setSlot_fiq s hfiq value
    · have hbank : m.bank ≠ s.mode.bank := by simpa using hseen
      rw [slotOf_sp, if_neg hbank, Register.physical_sp]
      exact physicalValue_setSlot_sp s hbank value
    · have hbank : m.bank ≠ s.mode.bank := by simpa using hseen
      rw [slotOf_lr, if_neg hbank, Register.physical_lr]
      exact physicalValue_setSlot_lr s hbank value
    · simp at hseen

/-- A write through a mode leaves all status registers alone. -/
theorem status_setRegInMode (s : CpuState) (m : Mode) (r : Register) (value : UInt32) :
    (s.setRegInMode m r value).cpsr = s.cpsr ∧ (s.setRegInMode m r value).spsr = s.spsr := by
  unfold setRegInMode
  cases s.slotOf m r with
  | fiq i fiq => cases fiq <;> exact ⟨rfl, rfl⟩
  | active | sp | lr => exact ⟨rfl, rfl⟩

/-- Setting an entry of a vector updates the function that the vector stands for. -/
theorem set_eq_ofFn {α : Type} {n : Nat} (v : Vector α n) (i : Fin n) (a : α) :
    v.set i.val a i.isLt = Vector.ofFn (Function.update v.get i a) := by
  apply Vector.ext
  intro k hk
  rw [Vector.getElem_ofFn, Function.update_apply, Vector.getElem_set, Vector.get_eq_getElem]
  simp only [Fin.ext_iff, eq_comm]

/-! ## Operations -/

/-- Every operation acts on the state's file as it does on files. -/
theorem file_applyOperation (s : CpuState) (op : BankOperation) :
    (s.applyOperation op).file = s.file.apply op := by
  cases op with
  | setCpsr value => exact RegisterFile.ext (physicalValue_setCpsr s value) rfl rfl
  | setMode m => exact RegisterFile.ext (physicalValue_setCpsr s _) rfl rfl
  | setRegInMode m r value =>
    obtain ⟨hcpsr, hspsr⟩ := status_setRegInMode s m r value
    refine RegisterFile.ext (physicalValue_setRegInMode s m r value) hcpsr ?_
    show (fun bank : Fin 6 => (s.setRegInMode m r value).spsr.get bank) = _
    rw [hspsr]
    rfl
  | setSavedStatus value =>
    show (s.setSavedStatus value).file =
      if s.mode.hasSavedStatus then _ else s.file
    unfold setSavedStatus
    split
    · refine RegisterFile.ext rfl rfl (funext fun bank => ?_)
      show (s.spsr.set s.mode.bank value).get bank =
        Function.update s.spsr.get s.mode.bank value bank
      rw [set_eq_ofFn, Vector.get_eq_getElem, Vector.getElem_ofFn]
    · rfl

/-- Over any sequence of operations a state stands for the file that the operations lead to. -/
theorem file_foldl_applyOperation (s : CpuState) (ops : List BankOperation) :
    (ops.foldl applyOperation s).file = ops.foldl RegisterFile.apply s.file := by
  induction ops generalizing s with
  | nil => rfl
  | cons op ops ih => rw [List.foldl_cons, List.foldl_cons, ih, file_applyOperation]

/-- **Banking is faithful.** A change of the status or of the mode hides and uncovers registers
but changes none; a write through a mode changes the register it names for every mode that
shares it, and no other; a saved status belongs to its bank. So the active registers are always
the current mode's view of one file of registers. -/
theorem banking_faithful (s : CpuState) :
    (∀ (value : UInt32) (m : Mode) (r : Register),
      (s.setCpsr value).regInMode m r = s.regInMode m r) ∧
    (∀ (new m : Mode) (r : Register), (s.setMode new).regInMode m r = s.regInMode m r) ∧
    (∀ (m m' : Mode) (r r' : Register) (value : UInt32),
      (s.setRegInMode m r value).regInMode m' r' =
        if r' = r ∧ (8 ≤ r.val ∧ r.val ≤ 12 → (m' = .fiq ↔ m = .fiq)) ∧
            (r = Register.sp ∨ r = Register.lr → m'.bank = m.bank)
        then value else s.regInMode m' r') ∧
    (∀ value : UInt32, s.setSavedStatus value =
      if s.mode = .user ∨ s.mode = .system then s
      else { s with spsr := Vector.ofFn (Function.update s.spsr.get s.mode.bank value) }) ∧
    (∀ ops : List BankOperation,
      let t := ops.foldl applyOperation s
      let f := ops.foldl RegisterFile.apply s.file
      t.file = f ∧ t.mode = f.mode ∧ ∀ r : Register, t.reg r = f.view f.mode r) := by
  refine ⟨?_, ?_, ?_, ?_, ?_⟩
  · intro value m r
    rw [regInMode_eq_view, regInMode_eq_view]
    exact congrFun (physicalValue_setCpsr s value) _
  · intro new m r
    rw [regInMode_eq_view, regInMode_eq_view]
    exact congrFun (physicalValue_setCpsr s _) _
  · intro m m' r r' value
    rw [regInMode_eq_view, regInMode_eq_view]
    show (s.setRegInMode m r value).physicalValue (r'.physical m') = _
    rw [physicalValue_setRegInMode, Function.update_apply]
    refine if_congr ?_ rfl rfl
    rw [Register.physical_eq_iff]
    constructor
    · rintro ⟨rfl, h⟩
      exact ⟨rfl, h⟩
    · rintro ⟨rfl, h⟩
      exact ⟨rfl, h⟩
  · intro value
    unfold setSavedStatus
    by_cases h : s.mode = .user ∨ s.mode = .system
    · rw [if_pos h, if_neg]
      rcases h with h | h <;> rw [h] <;> decide
    · rw [if_neg h, if_pos, set_eq_ofFn]
      simpa [Mode.hasSavedStatus] using h
  · intro ops t f
    have hfile : t.file = f := file_foldl_applyOperation s ops
    have hmode : t.mode = f.mode := congrArg RegisterFile.mode hfile
    refine ⟨hfile, hmode, ?_⟩
    intro r
    rw [← hmode, ← hfile]
    exact (physicalValue_eq_reg t r).symm

end CpuState
end Handheld
