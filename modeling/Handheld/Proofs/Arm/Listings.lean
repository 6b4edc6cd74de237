import Mathlib
import Handheld.Arm.Execute
import Handheld.Arm.Listing
import Handheld.Proofs.Arm.Chart
import Handheld.Proofs.Cpu.RegisterFile

/-!
# What the listing of a single transfer says about its offset

An amount of zero means something else for each kind of shift, and a listing leaves the shift of an
offset out if its amount is zero, whatever its kind. So of the words that differ in nothing but the
shift, those with an amount of zero read alike and add different offsets. All others are told apart.

* `shiftText_eq_iff` says which shifts read alike, `byImmediate_zero_injective` that those with an
  amount of zero differ on some register;
* `SameButShift` relates the words in question, `listing_tells_offset` is the statement for them.
-/

namespace Handheld.Arm

open Word

/-! ## Texts -/

theorem length_shiftName (shift : ShiftKind) : shift.name.toList.length = 3 := by
  cases shift <;> decide

theorem shiftName_injective {shift shift' : ShiftKind} (h : shift.name = shift'.name) :
    shift = shift' := by
  cases shift <;> cases shift' <;> first | rfl | exact absurd h (by decide)

/-- The shift of an offset as it stands behind the register. -/
def shiftText (shift : ShiftKind) (amount : UInt32) : String :=
  if amount = 0 then "" else " " ++ (shift.name ++ (" $" ++ Term.natural amount.toNat))

theorem text_shiftedRegister (up : Bool) (base : Register) (shift : ShiftKind) (amount : UInt32) :
    Offset.text up (.shiftedRegister base shift amount) =
      ", " ++ (if up then "" else "-") ++ base.name ++ shiftText shift amount := by
  unfold Offset.text shiftText
  by_cases h : amount = 0
  · simp only [if_pos h, String.append_empty]
  · simp only [if_neg h, String.append_assoc]

/-- Two shifts read alike if they are the same, or if both have an amount of zero. -/
theorem shiftText_eq_iff {shift shift' : ShiftKind} {amount amount' : UInt32} :
    shiftText shift amount = shiftText shift' amount' ↔
      amount = amount' ∧ (shift = shift' ∨ amount = 0) := by
  unfold shiftText
  by_cases h : amount = 0 <;> by_cases h' : amount' = 0
  · rw [if_pos h, if_pos h', h, h']
    exact iff_of_true rfl ⟨rfl, .inr rfl⟩
  · rw [if_pos h, if_neg h']
    refine ⟨fun heq => ?_, fun heq => absurd (heq.1.symm.trans h) h'⟩
    exact absurd (congrArg String.toList heq) (by simp)
  · rw [if_neg h, if_pos h']
    refine ⟨fun heq => ?_, fun heq => absurd (heq.1.trans h') h⟩
    exact absurd (congrArg String.toList heq) (by simp)
  · rw [if_neg h, if_neg h', String.append_right_inj]
    constructor
    · intro heq
      -- All names are of one length, so the text can be cut behind the name.
      have hlist := congrArg String.toList heq
      rw [String.toList_append, String.toList_append (s := shift'.name)] at hlist
      obtain ⟨hname, hrest⟩ := List.append_inj hlist
        ((length_shiftName shift).trans (length_shiftName shift').symm)
      have hnatural := (String.append_right_inj " $").mp (String.toList_injective hrest)
      exact ⟨UInt32.toNat_inj.mp (Nat.repr_injective hnatural),
        .inl (shiftName_injective (String.toList_injective hname))⟩
    · rintro ⟨rfl, rfl | hzero⟩
      · rfl
      · exact absurd hzero h

/-- Two transfers that differ in their offsets only read alike if the offsets do. -/
theorem transferText_eq_iff (cc : String) (n d : Register) (offset offset' : Offset)
    (mode : TransferMode) :
    transferText cc n d offset mode = transferText cc n d offset' mode ↔
      offset.text mode.up = offset'.text mode.up := by
  unfold transferText
  cases mode.pre
  · simp only [Bool.false_eq_true, if_false, String.append_right_inj]
  · simp only [if_true, String.append_left_inj, String.append_right_inj]

/-! ## Offsets -/

/-- The shifts with an amount of zero all make something else of the highest bit alone, if the carry
is set. -/
theorem byImmediate_zero_injective {shift shift' : ShiftKind}
    (h : (Shifter.byImmediate shift 0x80000000 0 true).value =
      (Shifter.byImmediate shift' 0x80000000 0 true).value) : shift = shift' := by
  cases shift <;> cases shift' <;> first | rfl | exact absurd h (by decide)

/-- A processor with one bit set in a register, and with the carry set. -/
def probe (r : Register) : CpuState := (({} : CpuState).setFlag .carry true).setReg r 0x80000000

/-- An offset with a shift by zero tells its kind by what it adds. -/
theorem transferOffset_zero_injective {base : Register} {shift shift' : ShiftKind}
    (h : Core.transferOffset (probe base) (.shiftedRegister base shift 0) =
      Core.transferOffset (probe base) (.shiftedRegister base shift' 0)) : shift = shift' := by
  have hreg : (probe base).reg base = 0x80000000 := by
    rw [probe, CpuState.reg_setReg, if_pos rfl]
  have hcarry : (probe base).isFlag .carry = true := by
    show isBit (setBit (0xD3 : UInt32) 29 true) 29 = true
    decide
  simp only [Core.transferOffset, hreg, hcarry] at h
  exact byImmediate_zero_injective h

/-! ## Words that differ in the shift -/

/-- The words agree everywhere but in the amount and kind of a shift, bits 5 to 11. -/
structure SameButShift (w w' : UInt32) : Prop where
  upper : field w 31 12 = field w' 31 12
  lower : field w 4 0 = field w' 4 0

namespace SameButShift

variable {w w' : UInt32} (h : SameButShift w w')

include h

theorem field_upper {high low : ℕ} (hlow : 12 ≤ low) : field w high low = field w' high low := by
  have hquotient : w.toNat / 2 ^ 12 = w'.toNat / 2 ^ 12 := by
    have hupper := h.upper
    have hw := w.toNat_lt
    have hw' := w'.toNat_lt
    unfold field at hupper
    omega
  have hsplit : 2 ^ low = 2 ^ 12 * 2 ^ (low - 12) := by
    rw [← Nat.pow_add]
    congr 1
    omega
  unfold field
  rw [hsplit, ← Nat.div_div_eq_div_mul, ← Nat.div_div_eq_div_mul, hquotient]

theorem field_lower : field w 3 0 = field w' 3 0 := by
  have hlower := h.lower
  unfold field at hlower ⊢
  omega

theorem isBit_upper {i : ℕ} (hlow : 12 ≤ i) (hi : i < 32) : isBit w i = isBit w' i := by
  rw [eq_isBit_iff hi, toNat_isBit w hi]
  exact h.field_upper hlow

theorem reg_upper {low : ℕ} (hlow : 12 ≤ low) (hhigh : low < 29) : reg w low = reg w' low := by
  rw [Fin.ext_iff, val_reg w rfl hhigh, val_reg w' rfl hhigh, h.field_upper hlow]

theorem reg_lower : reg w 0 = reg w' 0 := by
  have hval (w : UInt32) : (reg w 0).val = field w 3 0 := val_reg w rfl (by decide)
  rw [Fin.ext_iff, hval, hval, h.field_lower]

theorem condition_eq : condition w = condition w' := by
  rw [Fin.ext_iff, val_condition, val_condition, h.field_upper (by decide)]

end SameButShift

/-- What a word or a byte is moved, and where to. -/
def plainKind (w : UInt32) : TransferKind :=
  match isBit w 20, isBit w 22 with
  | true, true => .loadByte
  | true, false => .loadWord
  | false, true => .storeByte
  | false, false => .storeWord

/-- Of the words with a shifted register as offset, everything but the shift. -/
theorem fields_of_decode {w : UInt32} {n d base : Register} {shift : ShiftKind} {amount : UInt32}
    {mode : TransferMode}
    (h : decode true w = .transfer n d (.shiftedRegister base shift amount) mode) :
    n = reg w 16 ∧ d = reg w 12 ∧ base = reg w 0 ∧ mode = transferMode w (plainKind w) := by
  have hdecode : decodeAs true w (Encoding.ofIndex (index w)) =
      .transfer n d (.shiftedRegister base shift amount) mode := by
    unfold decode at h
    by_cases hcond : (true && condition w == 15) = true
    · rw [if_pos hcond] at h
      unfold decodeUnconditional at h
      split_ifs at h
    · rwa [if_neg hcond] at h
  rcases class_of_transfer hdecode with hclass | ⟨kind, -, hextra⟩
  · rw [hclass] at hdecode
    simp only [decodeAs] at hdecode
    injection hdecode with hn hd hoffset hmode
    split_ifs at hoffset
    injection hoffset with hbase
    exact ⟨hn.symm, hd.symm, hbase.symm, hmode.symm⟩
  · -- The other transfers have no shift.
    injection hextra with _ _ hoffset
    unfold extraOffset at hoffset
    split_ifs at hoffset

theorem SameButShift.plainKind_eq {w w' : UInt32} (h : SameButShift w w') :
    plainKind w = plainKind w' := by
  unfold plainKind
  rw [h.isBit_upper (by decide) (by decide), h.isBit_upper (i := 22) (by decide) (by decide)]

theorem SameButShift.transferMode_eq {w w' : UInt32} (h : SameButShift w w')
    (kind : TransferKind) : transferMode w kind = transferMode w' kind := by
  unfold transferMode
  rw [h.isBit_upper (i := 24) (by decide) (by decide),
    h.isBit_upper (i := 23) (by decide) (by decide),
    h.isBit_upper (i := 21) (by decide) (by decide)]

/-- **What a listing says about the offset that is added.** Two words of single transfers that
differ in nothing but the shift of the offset read alike exactly if they agree on the amount, and on
the kind of the shift unless the amount is zero. If they read alike, they add the same offset for
every register and carry exactly if they agree on the kind: so a listing misleads where an amount of
zero hides two kinds of shift, and nowhere else. -/
theorem listing_tells_offset {w w' : UInt32} (same : SameButShift w w')
    {n d base n' d' base' : Register} {shift shift' : ShiftKind} {amount amount' : UInt32}
    {mode mode' : TransferMode}
    (hw : decode true w = .transfer n d (.shiftedRegister base shift amount) mode)
    (hw' : decode true w' = .transfer n' d' (.shiftedRegister base' shift' amount') mode') :
    (listing w = listing w' ↔ amount = amount' ∧ (shift = shift' ∨ amount = 0)) ∧
    (listing w = listing w' →
      ((∀ s : CpuState, Core.transferOffset s (.shiftedRegister base shift amount) =
        Core.transferOffset s (.shiftedRegister base' shift' amount')) ↔ shift = shift')) := by
  obtain ⟨rfl, rfl, rfl, rfl⟩ := fields_of_decode hw
  obtain ⟨rfl, rfl, rfl, rfl⟩ := fields_of_decode hw'
  have hbase := same.reg_lower
  have hn : reg w 16 = reg w' 16 := same.reg_upper (by decide) (by decide)
  have hd : reg w 12 = reg w' 12 := same.reg_upper (by decide) (by decide)
  have htext : listing w = listing w' ↔ amount = amount' ∧ (shift = shift' ∨ amount = 0) := by
    unfold listing
    rw [hw, hw', same.condition_eq, hn, hd, same.plainKind_eq, same.transferMode_eq]
    show transferText _ _ _ _ _ = transferText _ _ _ _ _ ↔ _
    rw [transferText_eq_iff, text_shiftedRegister, text_shiftedRegister, hbase,
      String.append_right_inj, shiftText_eq_iff]
  refine ⟨htext, fun halike => ?_⟩
  obtain ⟨rfl, hkind⟩ := htext.mp halike
  rw [hbase]
  constructor
  · intro hoffset
    rcases hkind with hkind | rfl
    · exact hkind
    · exact transferOffset_zero_injective (hoffset (probe (reg w' 0)))
  · rintro rfl s
    rfl

/-- A load at the sum of two registers reads like one whose second register is shifted right by 32,
though that adds nothing. -/
theorem listing_tells_offset_hidden :
    SameButShift 0xE7910002 0xE7910022 ∧ listing 0xE7910002 = listing 0xE7910022 ∧
      ¬ ∀ s : CpuState, Core.transferOffset s (.shiftedRegister 2 .lsl 0) =
        Core.transferOffset s (.shiftedRegister 2 .lsr 0) := by
  have hsame : SameButShift 0xE7910002 0xE7910022 := ⟨by decide, by decide⟩
  have hplain : decode true 0xE7910002 =
      .transfer 1 0 (.shiftedRegister 2 .lsl 0) ⟨true, true, .loadWord, false⟩ := by decide
  have hshifted : decode true 0xE7910022 =
      .transfer 1 0 (.shiftedRegister 2 .lsr 0) ⟨true, true, .loadWord, false⟩ := by decide
  obtain ⟨htext, hoffset⟩ := listing_tells_offset hsame hplain hshifted
  have halike := htext.mpr ⟨rfl, .inr rfl⟩
  exact ⟨hsame, halike, fun hall => nomatch (hoffset halike).mp hall⟩

end Handheld.Arm
