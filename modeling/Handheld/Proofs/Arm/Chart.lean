import Handheld.Proofs.Arm.TransferEncoding

/-!
# The chart of long instructions

Of the patterns of the chart that fit an index the first one counts, so a class may lose indices to
any class before it. Which classes the indices of a pattern have is found here without going
through the indices: patterns that want different values of a common bit exclude each other. From
the classes follows what a few fields of a word say about the instruction that it encodes, and what
the two versions of the processor make of it.
-/

namespace Handheld.Arm

open Word

/-- The number in the bits of a word from `high` down to `low`. -/
def field (w : UInt32) (high low : ℕ) : ℕ := w.toNat / 2 ^ low % 2 ^ (high + 1 - low)

/-! ## Patterns -/

section
variable {i mask value mask' value' : UInt32}

/-- Patterns that want different values of a common bit do not fit the same index. -/
theorem misfit_of_fits (h : i &&& mask = value) (hdiffer : value &&& mask' ≠ value' &&& mask) :
    i &&& mask' ≠ value' := by
  refine fun h' => hdiffer ?_
  rw [← h, ← h', UInt32.and_assoc, UInt32.and_assoc, UInt32.and_comm mask]

/-- A pattern fits if another that wants at least as much does. -/
theorem fits_of_fits (h : i &&& mask = value) (hmore : mask &&& mask' = mask')
    (hvalue : value &&& mask' = value') : i &&& mask' = value' := by
  rw [← hmore, ← UInt32.and_assoc, h, hvalue]

theorem or_and_left (mask mask' : UInt32) : (mask ||| mask') &&& mask = mask := by
  refine ext_isBit fun k hk => ?_
  rw [isBit_and _ _ hk, isBit_or _ _ hk]
  cases isBit mask k <;> cases isBit mask' k <;> rfl

theorem or_and_right (mask mask' : UInt32) : (mask ||| mask') &&& mask' = mask' := by
  rw [UInt32.or_comm, or_and_left]

/-- Two patterns at once are one pattern. -/
theorem fits_both (h : i &&& mask = value) (h' : i &&& mask' = value') :
    i &&& (mask ||| mask') = value ||| value' := by
  rw [UInt32.and_comm, or_and, UInt32.and_comm mask, UInt32.and_comm mask', h, h']

theorem fits_both_iff {both bothValue : UInt32}
    (h : both = mask ||| mask' ∧ bothValue = value ||| value' ∧ bothValue &&& mask = value ∧
      bothValue &&& mask' = value') :
    i &&& both = bothValue ↔ i &&& mask = value ∧ i &&& mask' = value' := by
  obtain ⟨hmask, hvalue, hleft, hright⟩ := h
  refine ⟨fun hfits => ⟨?_, ?_⟩, fun ⟨hfits, hfits'⟩ => ?_⟩
  · rw [← hleft, ← hfits, UInt32.and_assoc, hmask, or_and_left]
  · rw [← hright, ← hfits, UInt32.and_assoc, hmask, or_and_right]
  · rw [hmask, hvalue]
    exact fits_both hfits hfits'

/-- A pattern of neighbouring bits is about the number in them. -/
theorem fits_iff {low len v : ℕ} (hmask : mask.toNat = (2 ^ len - 1) * 2 ^ low)
    (hvalue : value.toNat = v * 2 ^ low) :
    i &&& mask = value ↔ i.toNat / 2 ^ low % 2 ^ len = v := by
  have hand : (i &&& mask).toNat = i.toNat / 2 ^ low % 2 ^ len * 2 ^ low := by
    refine Nat.eq_of_testBit_eq fun k => ?_
    rw [UInt32.toNat_and, hmask, Nat.testBit_and, Nat.testBit_mul_two_pow, Nat.testBit_mul_two_pow,
      ← Nat.and_two_pow_sub_one_eq_mod, Nat.testBit_and, Nat.testBit_div_two_pow]
    by_cases hk : low ≤ k
    · rw [Nat.sub_add_cancel hk, Bool.and_left_comm]
    · simp [hk]
  rw [← UInt32.toNat_inj, hand, hvalue]
  exact Nat.mul_left_inj (Nat.two_pow_pos low).ne'

/-- A bit is 0 or 1. -/
theorem fits_bit (i mask : UInt32) (low : ℕ) (hmask : mask.toNat = 2 ^ low) :
    i &&& mask = 0 ∨ i &&& mask = mask := by
  have hone : mask.toNat = (2 ^ 1 - 1) * 2 ^ low := by omega
  have hclear : i &&& mask = 0 ↔ i.toNat / 2 ^ low % 2 ^ 1 = 0 :=
    fits_iff hone (Nat.zero_mul _).symm
  have hset : i &&& mask = mask ↔ i.toNat / 2 ^ low % 2 ^ 1 = 1 :=
    fits_iff hone (hmask.trans (Nat.one_mul _).symm)
  rw [hclear, hset]
  omega

end

/-! ## Fields of the index -/

section
variable {w mask value : UInt32} {high low v : ℕ}

/-- A pattern over the upper eight bits of the index. -/
theorem index_fits_upper (hlow : 20 ≤ low) (hle : low ≤ high) (hhigh : high < 28)
    (hmask : mask.toNat = (2 ^ (high + 1 - low) - 1) * 2 ^ (low - 16))
    (hvalue : value.toNat = v * 2 ^ (low - 16)) :
    index w &&& mask = value ↔ field w high low = v := by
  obtain ⟨start, rfl⟩ := Nat.exists_eq_add_of_le hlow
  have hstart : 20 + start - 16 = 4 + start := by omega
  have hwidth : start + (high + 1 - (20 + start)) ≤ 8 := by omega
  have hupper : (index w).toNat / 2 ^ 4 = w.toNat / 2 ^ 20 % 2 ^ 8 := by
    rw [toNat_index]
    omega
  rw [fits_iff hmask hvalue, hstart, field, Nat.pow_add _ 4, ← Nat.div_div_eq_div_mul, hupper,
    Nat.pow_add _ 20, ← Nat.div_div_eq_div_mul, mod_div_mod _ hwidth]

/-- A pattern over the lower four bits of the index. -/
theorem index_fits_lower (hlow : 4 ≤ low) (hle : low ≤ high) (hhigh : high < 8)
    (hmask : mask.toNat = (2 ^ (high + 1 - low) - 1) * 2 ^ (low - 4))
    (hvalue : value.toNat = v * 2 ^ (low - 4)) :
    index w &&& mask = value ↔ field w high low = v := by
  obtain ⟨start, rfl⟩ := Nat.exists_eq_add_of_le hlow
  have hstart : 4 + start - 4 = start := by omega
  have hwidth : start + (high + 1 - (4 + start)) ≤ 4 := by omega
  rw [fits_iff hmask hvalue, hstart, field, toNat_index, div_mod_of_add_le _ _ hwidth,
    mod_div_mod _ hwidth, Nat.div_div_eq_div_mul, ← Nat.pow_add]

end

/-! ## Areas -/

/-- The kinds of instructions that a few fields of a word tell apart. -/
inductive Area where
  | alu | transfer | branch | blockTransfer | softwareInterrupt | other
  deriving DecidableEq

/-- The area that a class lies in. -/
def Encoding.area : Encoding → Area
  | .aluShiftedImmediate | .aluShiftedRegister | .aluImmediate => .alu
  | .transfer => .transfer
  | .branch => .branch
  | .blockTransfer => .blockTransfer
  | .softwareInterrupt => .softwareInterrupt
  | _ => .other

/-- The area that an instruction comes from. -/
def Instruction.area : Instruction → Area
  | .alu .. => .alu
  | .transfer _ _ _ mode => if mode.kind.isPlain then .transfer else .other
  | .branch .. => .branch
  | .blockTransfer .. => .blockTransfer
  | .softwareInterrupt _ => .softwareInterrupt
  | _ => .other

/-- The area that the fields of a word tell. -/
def areaOf (w : UInt32) : Area :=
  if field w 27 26 = 0b00 then
    if field w 25 25 = 0 ∧ field w 7 7 = 1 ∧ field w 4 4 = 1 ∨
      field w 24 23 = 0b10 ∧ field w 20 20 = 0 then .other
    else .alu
  else if field w 27 26 = 0b01 then
    if field w 25 25 = 1 ∧ field w 4 4 = 1 then .other else .transfer
  else if field w 27 26 = 0b10 then
    if field w 25 25 = 1 then .branch else .blockTransfer
  else
    if field w 25 24 = 0b11 then .softwareInterrupt else .other

theorem extraKind?_isPlain {isV5 : Bool} {inst : UInt32} {kind : TransferKind}
    (h : extraKind? isV5 inst = some kind) : kind.isPlain = false := by
  unfold extraKind? at h
  grind [TransferKind.isPlain]

/-- A member of a class comes from the area of the class. -/
theorem area_decodeAs (isV5 : Bool) (w : UInt32) (c : Encoding) :
    (decodeAs isV5 w c).area = c.area := by
  cases c with
  | multiply =>
    simp only [decodeAs]
    split <;> rfl
  | extraTransfer =>
    simp only [decodeAs]
    split
    · rename_i h
      simp [Instruction.area, Encoding.area, transferMode, extraKind?_isPlain h]
    · rfl
  | transfer =>
    simp only [decodeAs, Instruction.area, Encoding.area, transferMode]
    cases isBit w 20 <;> cases isBit w 22 <;> rfl
  | _ => cases isV5 <;> rfl

/-! ## Classes of a pattern -/

/-- The patterns of the chart with their classes. -/
def chart : List (UInt32 × UInt32 × Encoding) :=
  [(0xE00, 0xA00, .branch), (0xF00, 0xF00, .softwareInterrupt), (0xF11, 0xE11, .readCoprocessor),
    (0xF11, 0xE01, .writeCoprocessor), (0xF0F, 0x009, .multiply), (0xFBF, 0x109, .swap),
    (0xF99, 0x108, .halfMultiply), (0xFFF, 0x121, .exchange), (0xFFF, 0x123, .callExchange),
    (0xFFF, 0x161, .leadingZeros), (0xF9F, 0x105, .saturating), (0xFBF, 0x100, .readStatus),
    (0xFBF, 0x120, .writeStatusRegister), (0xFB0, 0x320, .writeStatusImmediate),
    (0xE09, 0x009, .extraTransfer), (0xF90, 0x100, .miscellaneous),
    (0xE01, 0x000, .aluShiftedImmediate), (0xE09, 0x001, .aluShiftedRegister),
    (0xFB0, 0x300, .reservedImmediate), (0xE00, 0x200, .aluImmediate),
    (0xE01, 0x601, .reservedTransfer), (0xC00, 0x400, .transfer), (0xE00, 0x800, .blockTransfer)]

/-- The class of the first pattern that fits. -/
def firstFit (i : UInt32) : List (UInt32 × UInt32 × Encoding) → Encoding
  | [] => .unassigned
  | (mask, value, c) :: patterns => if i &&& mask == value then c else firstFit i patterns

theorem firstFit_chart (i : UInt32) : firstFit i chart = Encoding.ofIndex i := rfl

/-- The classes that an index may have if a pattern fits it: patterns that want other values are
passed over, and one that wants no more than the given pattern is the last. -/
def candidates (mask value : UInt32) : List (UInt32 × UInt32 × Encoding) → List Encoding
  | [] => [.unassigned]
  | (mask', value', c) :: patterns =>
    if value &&& mask' ≠ value' &&& mask then candidates mask value patterns
    else if mask &&& mask' = mask' ∧ value &&& mask' = value' then [c]
    else c :: candidates mask value patterns

section
variable {i mask value : UInt32}

theorem firstFit_mem_candidates (h : i &&& mask = value)
    (patterns : List (UInt32 × UInt32 × Encoding)) :
    firstFit i patterns ∈ candidates mask value patterns := by
  -- Both lists are gone through together; a pattern that may fit stays a candidate either way.
  induction patterns with
  | nil => exact List.mem_singleton_self _
  | cons p patterns ih =>
    obtain ⟨mask', value', c⟩ := p
    unfold firstFit candidates
    by_cases hdiffer : value &&& mask' ≠ value' &&& mask
    · have hmisfit : (i &&& mask' == value') = false :=
        beq_eq_false_iff_ne.mpr (misfit_of_fits h hdiffer)
      rw [if_pos hdiffer, hmisfit]
      exact ih
    rw [if_neg hdiffer]
    by_cases hlast : mask &&& mask' = mask' ∧ value &&& mask' = value'
    · rw [if_pos hlast, if_pos (beq_iff_eq.mpr (fits_of_fits h hlast.1 hlast.2))]
      exact List.mem_singleton_self c
    · rw [if_neg hlast]
      split
      · exact List.mem_cons_self
      · exact List.mem_cons_of_mem c ih

/-- The indices that a pattern fits lie in one area if all classes that they may have do. -/
theorem area_of_fits {a : Area} (h : i &&& mask = value)
    (hall : ∀ c ∈ candidates mask value chart, c.area = a) :
    (Encoding.ofIndex i).area = a := by
  rw [← firstFit_chart]
  exact hall _ (firstFit_mem_candidates h chart)

end

/-! ## Areas of the index -/

section
variable {i : UInt32}

theorem area_calls (h : i &&& 0xC00 = 0xC00) :
    (Encoding.ofIndex i).area = if i &&& 0x300 = 0x300 then .softwareInterrupt else .other := by
  split_ifs with hcall
  · exact area_of_fits (fits_both h hcall) (by decide)
  · rcases fits_bit i 0x200 9 rfl with hbit9 | hbit9
    · exact area_of_fits (fits_both h hbit9) (by decide)
    rcases fits_bit i 0x100 8 rfl with hbit8 | hbit8
    · exact area_of_fits (fits_both h hbit8) (by decide)
    · exact absurd (fits_both hbit9 hbit8) hcall

theorem area_blocks (h : i &&& 0xC00 = 0x800) :
    (Encoding.ofIndex i).area = if i &&& 0x200 = 0x200 then .branch else .blockTransfer := by
  split_ifs with hbit
  · exact area_of_fits (fits_both h hbit) (by decide)
  · have hclear := (fits_bit i 0x200 9 rfl).resolve_right hbit
    exact area_of_fits (fits_both h hclear) (by decide)

theorem area_transfers (h : i &&& 0xC00 = 0x400) :
    (Encoding.ofIndex i).area = if i &&& 0x201 = 0x201 then .other else .transfer := by
  split_ifs with hreserved
  · exact area_of_fits (fits_both h hreserved) (by decide)
  · rcases fits_bit i 0x200 9 rfl with hbit9 | hbit9
    · exact area_of_fits (fits_both h hbit9) (by decide)
    rcases fits_bit i 0x001 0 rfl with hbit0 | hbit0
    · exact area_of_fits (fits_both h hbit0) (by decide)
    · exact absurd (fits_both hbit9 hbit0) hreserved

theorem area_alu (h : i &&& 0xC00 = 0) (hextra : i &&& 0x209 ≠ 0x009)
    (hmisc : i &&& 0x190 ≠ 0x100) : (Encoding.ofIndex i).area = .alu := by
  -- One of three bits keeps the index out of the miscellaneous space, whichever it is.
  have hbits : i &&& 0x100 = 0 ∨ i &&& 0x080 = 0x080 ∨ i &&& 0x010 = 0x010 := by
    rcases fits_bit i 0x100 8 rfl with hbit8 | hbit8
    · exact .inl hbit8
    rcases fits_bit i 0x080 7 rfl with hbit7 | hbit7
    · refine .inr (.inr ((fits_bit i 0x010 4 rfl).resolve_left fun hbit4 => hmisc ?_))
      exact fits_both (fits_both hbit8 hbit7) hbit4
    · exact .inr (.inl hbit7)
  have hleaf {mask value : UInt32} (hfits : i &&& mask = value)
      (h8 : ∀ c ∈ candidates (mask ||| 0x100) (value ||| 0) chart, c.area = .alu)
      (h7 : ∀ c ∈ candidates (mask ||| 0x080) (value ||| 0x080) chart, c.area = .alu)
      (h4 : ∀ c ∈ candidates (mask ||| 0x010) (value ||| 0x010) chart, c.area = .alu) :
      (Encoding.ofIndex i).area = .alu := by
    obtain hbit8 | hbit7 | hbit4 := hbits
    · exact area_of_fits (fits_both hfits hbit8) h8
    · exact area_of_fits (fits_both hfits hbit7) h7
    · exact area_of_fits (fits_both hfits hbit4) h4
  -- The three forms of the second operand.
  rcases fits_bit i 0x200 9 rfl with hbit9 | hbit9
  · rcases fits_bit i 0x001 0 rfl with hbit0 | hbit0
    · exact hleaf (fits_both (fits_both h hbit9) hbit0) (by decide) (by decide) (by decide)
    · have hbit3 : i &&& 0x008 = 0 := by
        refine (fits_bit i 0x008 3 rfl).resolve_right fun hset => hextra ?_
        exact fits_both (fits_both hbit9 hbit0) hset
      exact hleaf (fits_both (fits_both (fits_both h hbit9) hbit0) hbit3)
        (by decide) (by decide) (by decide)
  · exact hleaf (fits_both h hbit9) (by decide) (by decide) (by decide)

theorem area_data (h : i &&& 0xC00 = 0) :
    (Encoding.ofIndex i).area =
      if i &&& 0x209 = 0x009 ∨ i &&& 0x190 = 0x100 then .other else .alu := by
  split_ifs with hother
  · obtain hextra | hmisc := hother
    · exact area_of_fits (fits_both h hextra) (by decide)
    rcases fits_bit i 0x200 9 rfl with hbit9 | hbit9
    · exact area_of_fits (fits_both (fits_both h hmisc) hbit9) (by decide)
    -- Of the immediate form, bit 5 tells the two patterns apart that come before data processing.
    rcases fits_bit i 0x020 5 rfl with hbit5 | hbit5
    · exact area_of_fits (fits_both (fits_both (fits_both h hmisc) hbit9) hbit5) (by decide)
    · exact area_of_fits (fits_both (fits_both (fits_both h hmisc) hbit9) hbit5) (by decide)
  · rw [not_or] at hother
    exact area_alu h hother.1 hother.2

end

/-- The classes of the chart lie in the areas that the fields of a word tell. -/
theorem area_ofIndex (w : UInt32) : (Encoding.ofIndex (index w)).area = areaOf w := by
  -- What the index is asked for are fields of the word.
  have hquarter (k : ℕ) (value : UInt32) (hvalue : value.toNat = k * 2 ^ 10) :
      index w &&& 0xC00 = value ↔ field w 27 26 = k :=
    index_fits_upper (by decide) (by decide) (by decide) rfl hvalue
  have hbit25 (k : ℕ) (value : UInt32) (hvalue : value.toNat = k * 2 ^ 9) :
      index w &&& 0x200 = value ↔ field w 25 25 = k :=
    index_fits_upper (by decide) (by decide) (by decide) rfl hvalue
  have hbit4 : index w &&& 0x001 = 0x001 ↔ field w 4 4 = 1 :=
    index_fits_lower (by decide) (by decide) (by decide) rfl rfl
  have hcall : index w &&& 0x300 = 0x300 ↔ field w 25 24 = 3 :=
    index_fits_upper (by decide) (by decide) (by decide) rfl rfl
  have hextra : index w &&& 0x209 = 0x009 ↔
      field w 25 25 = 0 ∧ field w 7 7 = 1 ∧ field w 4 4 = 1 := by
    have hbit7 : index w &&& 0x008 = 0x008 ↔ field w 7 7 = 1 :=
      index_fits_lower (by decide) (by decide) (by decide) rfl rfl
    have hlow : index w &&& 0x009 = 0x009 ↔
        index w &&& 0x008 = 0x008 ∧ index w &&& 0x001 = 0x001 := fits_both_iff (by decide)
    rw [← hbit25 0 0 rfl, ← hbit7, ← hbit4, ← hlow]
    exact fits_both_iff (by decide)
  have hmisc : index w &&& 0x190 = 0x100 ↔ field w 24 23 = 2 ∧ field w 20 20 = 0 := by
    have hbits : index w &&& 0x180 = 0x100 ↔ field w 24 23 = 2 :=
      index_fits_upper (by decide) (by decide) (by decide) rfl rfl
    have hbit20 : index w &&& 0x010 = 0 ↔ field w 20 20 = 0 :=
      index_fits_upper (by decide) (by decide) (by decide) rfl rfl
    rw [← hbits, ← hbit20]
    exact fits_both_iff (by decide)
  have hreserved : index w &&& 0x201 = 0x201 ↔ field w 25 25 = 1 ∧ field w 4 4 = 1 := by
    rw [← hbit25 1 0x200 rfl, ← hbit4]
    exact fits_both_iff (by decide)
  have hfour : field w 27 26 < 4 := Nat.mod_lt _ (by decide)
  obtain h | h | h | h :
      field w 27 26 = 0 ∨ field w 27 26 = 1 ∨ field w 27 26 = 2 ∨ field w 27 26 = 3 := by omega
  · rw [area_data ((hquarter 0 0 rfl).mpr h)]
    simp only [areaOf, if_pos h, hextra, hmisc]
  · rw [area_transfers ((hquarter 1 0x400 rfl).mpr h)]
    simp only [areaOf, h, hreserved]
    rfl
  · rw [area_blocks ((hquarter 2 0x800 rfl).mpr h)]
    simp only [areaOf, h, hbit25 1 0x200 rfl]
    rfl
  · rw [area_calls ((hquarter 3 0xC00 rfl).mpr h)]
    simp only [areaOf, h, hcall]
    rfl

/-! ## Fields of the word -/

theorem toNat_isBit (w : UInt32) {i : ℕ} (hi : i < 32) : (isBit w i).toNat = field w i i := by
  have hwidth : i + 1 - i = 1 := by omega
  rw [isBit_eq_testBit w hi, Nat.toNat_testBit, field, hwidth, Nat.pow_one]

theorem val_reg (w : UInt32) {high low : ℕ} (h : high = low + 3) (hlow : low < 29) :
    (reg w low).val = field w high low := by
  have hwidth : high + 1 - low = 4 := by omega
  have hlt : w.toNat / 2 ^ low % 2 ^ 4 < 16 := Nat.mod_lt _ (by decide)
  rw [reg, Register.ofBits, field, hwidth]
  show (bits w low 4).toNat % 16 = _
  rw [toNat_bits w (by omega) (by decide), Nat.mod_eq_of_lt hlt]

theorem ctorIdx_aluOp (w : UInt32) : (aluOp w).ctorIdx = field w 24 21 := by
  have hall : ∀ k : Fin 16, AluOp.all[k].ctorIdx = k.val := by decide
  have hlt : w.toNat / 2 ^ 21 % 2 ^ 4 < 16 := Nat.mod_lt _ (by decide)
  rw [aluOp, hall]
  show (bits w 21 4).toNat % 16 = _
  rw [toNat_bits w (by decide) (by decide), Nat.mod_eq_of_lt hlt]
  rfl

theorem val_condition (w : UInt32) : (condition w).val = field w 31 28 := by
  show (w >>> 28).toNat % 16 = _
  rw [UInt32.toNat_shiftRight, Nat.shiftRight_eq_div_pow]
  rfl

/-! ## The versions -/

/-- Whether two words move. -/
def TransferKind.isDouble (kind : TransferKind) : Bool := kind matches loadDouble | storeDouble

/-- Whether an instruction came with ARMv5. -/
def Instruction.isV5Only : Instruction → Bool
  | .readCoprocessor _ | .writeCoprocessor _ | .callExchange _ | .leadingZeros .. | .saturating ..
  | .halfMultiply .. => true
  | .transfer _ _ _ mode => mode.kind.isDouble
  | _ => false

theorem extraKind?_versions (w : UInt32) :
    extraKind? false w = (extraKind? true w).filter (!·.isDouble) := by
  unfold extraKind?
  cases isBit w 12 <;> split <;> rfl

/-- Doublewords start at an even register. -/
theorem even_of_isDouble {isV5 : Bool} {w : UInt32} {kind : TransferKind}
    (h : extraKind? isV5 w = some kind) (hdouble : kind.isDouble = true) : isBit w 12 = false := by
  unfold extraKind? at h
  cases hbit : isBit w 12 with
  | false => rfl
  | true =>
    rw [hbit] at h
    cases isV5 <;> split at h <;> cases h <;> cases hdouble

/-- A transfer is a plain one, or one of those whose kind is spread over the word. -/
theorem class_of_transfer {isV5 : Bool} {w : UInt32} {c : Encoding} {n d : Register}
    {offset : Offset} {mode : TransferMode} (h : decodeAs isV5 w c = .transfer n d offset mode) :
    c = .transfer ∨ ∃ kind, extraKind? isV5 w = some kind ∧
      Instruction.transfer n d offset mode =
        .transfer (reg w 16) (reg w 12) (extraOffset w) (transferMode w kind) := by
  cases c with
  | transfer => exact .inl rfl
  | extraTransfer =>
    simp only [decodeAs] at h
    split at h
    · rename_i kind hkind
      exact .inr ⟨kind, hkind, h.symm⟩
    · cases h
  | _ =>
    simp only [decodeAs] at h
    first
      | cases h
      | (split at h <;> cases h)

/-- ARMv4 knows all members of a class but the additions. -/
theorem decodeAs_versions (w : UInt32) (c : Encoding) :
    decodeAs false w c =
      if (decodeAs true w c).isV5Only then .unknown else decodeAs true w c := by
  have hadded (hnew : (decodeAs true w c).isV5Only = true)
      (hold : decodeAs false w c = .unknown) :
      decodeAs false w c =
        if (decodeAs true w c).isV5Only then .unknown else decodeAs true w c := by
    rw [hold, if_pos hnew]
  have hkept (hnew : (decodeAs true w c).isV5Only = false)
      (hold : decodeAs false w c = decodeAs true w c) :
      decodeAs false w c =
        if (decodeAs true w c).isV5Only then .unknown else decodeAs true w c := by
    rw [hold, hnew]
    rfl
  cases c with
  | readCoprocessor | writeCoprocessor | callExchange | leadingZeros | saturating | halfMultiply =>
    exact hadded rfl rfl
  | extraTransfer =>
    have hversions := extraKind?_versions w
    cases hkind : extraKind? true w with
    | none =>
      rw [hkind, Option.filter_none] at hversions
      exact hkept (by simp only [decodeAs, hkind, Instruction.isV5Only])
        (by simp only [decodeAs, hkind, hversions])
    | some kind =>
      rw [hkind] at hversions
      cases hdouble : kind.isDouble with
      | true =>
        rw [Option.filter_some, hdouble] at hversions
        exact hadded (by simp only [decodeAs, hkind, Instruction.isV5Only, transferMode, hdouble])
          (by simp only [decodeAs, hversions, Bool.not_true, Bool.false_eq_true, if_false])
      | false =>
        rw [Option.filter_some, hdouble] at hversions
        exact hkept (by simp only [decodeAs, hkind, Instruction.isV5Only, transferMode, hdouble])
          (by simp only [decodeAs, hkind, hversions, Bool.not_false, if_true])
  | multiply =>
    refine hkept ?_ rfl
    simp only [decodeAs]
    split <;> rfl
  | transfer =>
    refine hkept ?_ rfl
    simp only [decodeAs, Instruction.isV5Only, transferMode]
    cases isBit w 20 <;> cases isBit w 22 <;> rfl
  | _ => exact hkept rfl rfl

/-! ## The chart -/

theorem decode_eq_decodeAs {w : UInt32} (hcond : field w 31 28 ≠ 15) (isV5 : Bool) :
    decode isV5 w = decodeAs isV5 w (Encoding.ofIndex (index w)) := by
  have hne : (condition w == 15) = false := by
    rw [beq_eq_false_iff_ne]
    intro h
    exact hcond ((val_condition w).symm.trans (congrArg Fin.val h))
  rw [decode, hne, Bool.and_false]
  rfl

theorem area_decode {w : UInt32} (hcond : field w 31 28 ≠ 15) (isV5 : Bool) :
    (decode isV5 w).area = areaOf w := by
  rw [decode_eq_decodeAs hcond, area_decodeAs, area_ofIndex]

namespace Instruction

variable {i : Instruction}

theorem area_eq_branch : i.area = .branch ↔ ∃ offset link, i = .branch offset link := by
  cases i <;> simp [area]
  split_ifs <;> simp

theorem area_eq_softwareInterrupt :
    i.area = .softwareInterrupt ↔ ∃ comment, i = .softwareInterrupt comment := by
  cases i <;> simp [area]
  split_ifs <;> simp

theorem area_eq_blockTransfer :
    i.area = .blockTransfer ↔
      ∃ n list statusBit mode, i = .blockTransfer n list statusBit mode := by
  cases i <;> simp [area]
  split_ifs <;> simp

theorem area_eq_transfer :
    i.area = .transfer ↔
      ∃ n d offset mode, i = .transfer n d offset mode ∧ mode.kind.isPlain = true := by
  cases i <;> simp [area]

end Instruction

section
variable (w : UInt32)

theorem field_three : field w 27 25 = 2 * field w 27 26 + field w 25 25 := by
  show w.toNat / 2 ^ 25 % 2 ^ 3 = 2 * (w.toNat / 2 ^ 26 % 2 ^ 2) + w.toNat / 2 ^ 25 % 2 ^ 1
  omega

theorem field_four : field w 27 24 = 4 * field w 27 26 + field w 25 24 := by
  show w.toNat / 2 ^ 24 % 2 ^ 4 = 4 * (w.toNat / 2 ^ 26 % 2 ^ 2) + w.toNat / 2 ^ 24 % 2 ^ 2
  omega

theorem areaOf_eq_branch : areaOf w = .branch ↔ field w 27 25 = 0b101 := by
  have hsplit := field_three w
  have hbit : field w 25 25 < 2 := Nat.mod_lt _ (by decide)
  have hfour : field w 27 26 < 4 := Nat.mod_lt _ (by decide)
  unfold areaOf
  split_ifs <;> simp only [eq_self, false_iff, true_iff] <;> omega

theorem areaOf_eq_blockTransfer : areaOf w = .blockTransfer ↔ field w 27 25 = 0b100 := by
  have hsplit := field_three w
  have hbit : field w 25 25 < 2 := Nat.mod_lt _ (by decide)
  have hfour : field w 27 26 < 4 := Nat.mod_lt _ (by decide)
  unfold areaOf
  split_ifs <;> simp only [eq_self, false_iff, true_iff] <;> omega

theorem areaOf_eq_softwareInterrupt : areaOf w = .softwareInterrupt ↔ field w 27 24 = 0b1111 := by
  have hsplit := field_four w
  have hbits : field w 25 24 < 4 := Nat.mod_lt _ (by decide)
  have hfour : field w 27 26 < 4 := Nat.mod_lt _ (by decide)
  unfold areaOf
  split_ifs <;> simp only [eq_self, false_iff, true_iff] <;> omega

theorem areaOf_eq_transfer :
    areaOf w = .transfer ↔ field w 27 26 = 0b01 ∧ ¬ (field w 25 25 = 1 ∧ field w 4 4 = 1) := by
  unfold areaOf
  split_ifs <;> simp only [eq_self, false_iff, true_iff] <;> omega

theorem areaOf_eq_alu :
    areaOf w = .alu ↔
      field w 27 26 = 0b00 ∧ ¬ (field w 25 25 = 0 ∧ field w 7 7 = 1 ∧ field w 4 4 = 1) ∧
        ¬ (field w 24 23 = 0b10 ∧ field w 20 20 = 0) := by
  unfold areaOf
  split_ifs <;> simp only [eq_self, false_iff, true_iff] <;> omega

end

/-! ## What a word encodes -/

theorem eq_aluOp_iff {w : UInt32} {op : AluOp} : op = aluOp w ↔ op.ctorIdx = field w 24 21 := by
  refine ⟨fun h => h ▸ ctorIdx_aluOp w, fun h => (aluOp_of_field ?_).symm⟩
  rw [toNat_bits w (by decide) (by decide), h]
  rfl

theorem eq_isBit_iff {w : UInt32} {state : Bool} {i : ℕ} (hi : i < 32) :
    state = isBit w i ↔ state.toNat = field w i i := by
  rw [← toNat_isBit w hi]
  cases state <;> cases isBit w i <;> decide

/-- The register of a doubleword is even, whatever class the word is read as. -/
theorem even_of_decodeAs {isV5 : Bool} {w : UInt32} {c : Encoding} {n d : Register}
    {offset : Offset} {mode : TransferMode} (h : decodeAs isV5 w c = .transfer n d offset mode)
    (hdouble : mode.kind.isDouble = true) : d.val % 2 = 0 := by
  obtain rfl | ⟨kind, hkind, hextra⟩ := class_of_transfer h
  · cases h
    revert hdouble
    simp only [transferMode]
    cases isBit w 20 <;> cases isBit w 22 <;> intro hdouble <;> cases hdouble
  · cases hextra
    have hbit := even_of_isDouble hkind hdouble
    rw [isBit_eq_decide w (by decide), decide_eq_false_iff_not] at hbit
    rw [val_reg w rfl (by decide)]
    show w.toNat / 2 ^ 12 % 2 ^ 4 % 2 = 0
    omega

section
variable {w : UInt32} (hcond : field w 31 28 ≠ 15) (isV5 : Bool)
include hcond

/-- Data processing takes its operation and its registers from the word. -/
theorem eq_alu_iff (op : AluOp) (setFlags : Bool) (n d : Register) :
    (∃ operand, decode isV5 w = .alu op setFlags n d operand) ↔
      areaOf w = .alu ∧ op.ctorIdx = field w 24 21 ∧ setFlags.toNat = field w 20 20 ∧
        n.val = field w 19 16 ∧ d.val = field w 15 12 := by
  rw [← eq_aluOp_iff, ← eq_isBit_iff (by decide), ← val_reg w rfl (by decide),
    ← val_reg w rfl (by decide), ← Fin.ext_iff, ← Fin.ext_iff, decode_eq_decodeAs hcond,
    ← area_ofIndex]
  constructor
  · rintro ⟨operand, h⟩
    have hclass := area_decodeAs isV5 w (Encoding.ofIndex (index w))
    rw [h] at hclass
    refine ⟨hclass.symm, ?_⟩
    cases hofIndex : Encoding.ofIndex (index w) <;> rw [hofIndex] at h hclass <;> cases hclass <;>
      cases h <;> exact ⟨rfl, rfl, rfl, rfl⟩
  · rintro ⟨hclass, rfl, rfl, rfl, rfl⟩
    cases hofIndex : Encoding.ofIndex (index w) <;> rw [hofIndex] at hclass <;> cases hclass <;>
      exact ⟨_, rfl⟩

theorem even_of_decode {n d : Register} {offset : Offset} {mode : TransferMode}
    (h : decode isV5 w = .transfer n d offset mode) (hdouble : mode.kind.isDouble = true) :
    d.val % 2 = 0 := by
  rw [decode_eq_decodeAs hcond] at h
  exact even_of_decodeAs h hdouble

end

/-- **The decoder follows the chart.** Of a word whose condition is not all ones, ARMv4 reads what
ARMv5 does, but for what came with it, which it does not know. Either reads the word as data
processing, a branch, a call of the system, a block transfer, or a transfer of a word or a byte
just if the fields of the word say so; the parts of data processing are fields of the word, and a
doubleword has an even register. -/
theorem decode_chart {w : UInt32} (hcond : field w 31 28 ≠ 15) :
    decode false w = (if (decode true w).isV5Only then .unknown else decode true w) ∧
    ∀ isV5 : Bool,
      (∀ (op : AluOp) (setFlags : Bool) (n d : Register),
        (∃ operand, decode isV5 w = .alu op setFlags n d operand) ↔
          (field w 27 26 = 0b00 ∧
            ¬ (field w 25 25 = 0 ∧ field w 7 7 = 1 ∧ field w 4 4 = 1) ∧
            ¬ (field w 24 23 = 0b10 ∧ field w 20 20 = 0)) ∧
          op.ctorIdx = field w 24 21 ∧ setFlags.toNat = field w 20 20 ∧
          n.val = field w 19 16 ∧ d.val = field w 15 12) ∧
      ((∃ offset link, decode isV5 w = .branch offset link) ↔ field w 27 25 = 0b101) ∧
      ((∃ comment, decode isV5 w = .softwareInterrupt comment) ↔ field w 27 24 = 0b1111) ∧
      ((∃ n list statusBit mode, decode isV5 w = .blockTransfer n list statusBit mode) ↔
        field w 27 25 = 0b100) ∧
      ((∃ n d offset mode,
        decode isV5 w = .transfer n d offset mode ∧ mode.kind.isPlain = true) ↔
        field w 27 26 = 0b01 ∧ ¬ (field w 25 25 = 1 ∧ field w 4 4 = 1)) ∧
      ∀ (n d : Register) (offset : Offset) (mode : TransferMode),
        decode isV5 w = .transfer n d offset mode → mode.kind.isDouble = true → d.val % 2 = 0 := by
  refine ⟨?_, fun isV5 => ⟨?_, ?_, ?_, ?_, ?_, ?_⟩⟩
  · rw [decode_eq_decodeAs hcond, decode_eq_decodeAs hcond]
    exact decodeAs_versions w _
  · intro op setFlags n d
    rw [eq_alu_iff hcond, areaOf_eq_alu]
  · rw [← Instruction.area_eq_branch, area_decode hcond, areaOf_eq_branch]
  · rw [← Instruction.area_eq_softwareInterrupt, area_decode hcond, areaOf_eq_softwareInterrupt]
  · rw [← Instruction.area_eq_blockTransfer, area_decode hcond, areaOf_eq_blockTransfer]
  · rw [← Instruction.area_eq_transfer, area_decode hcond, areaOf_eq_transfer]
  · intro n d offset mode h hdouble
    exact even_of_decode hcond isV5 h hdouble

/-- A doubleword, which ARMv5 alone can load. -/
theorem decode_chart_doubleword :
    field 0xE1C020D0 31 28 ≠ 15 ∧ (decode true 0xE1C020D0).isV5Only = true ∧
      decode false 0xE1C020D0 = .unknown := by
  have hcond : field 0xE1C020D0 31 28 ≠ 15 := by decide
  have hnew : (decode true 0xE1C020D0).isV5Only = true := by decide
  refine ⟨hcond, hnew, ?_⟩
  rw [(decode_chart hcond).1, if_pos hnew]

end Handheld.Arm
