import Handheld.Arm.Decode
import Handheld.Proofs.Word

/-!
# Encoding of long instructions

The word of an instruction that is always executed. A word is put together from the bits that
choose its class, one or two registers and the bits below them; what `decode` reads back are these
parts. Here are the parts, data processing and products of words.
-/

namespace Handheld

open Word

theorem ShiftKind.ctorIdx_lt (shift : ShiftKind) : shift.ctorIdx < 4 := by cases shift <;> decide

namespace Arm

/-! ## Words from parts -/

/-- A word whose condition always holds, from the eight bits behind the condition, a register and
the low halfword. -/
def assemble (group : Nat) (n : Register) (low : Nat) : UInt32 :=
  UInt32.ofNat (14 * 2 ^ 28 + group * 2 ^ 20 + n.val * 2 ^ 16 + low)

/-- Digits that are read below a boundary do not show what is above it. -/
theorem div_mod_of_add_le (k b : Nat) {width start len : Nat} (h : start + len ≤ width) :
    (k * 2 ^ width + b) / 2 ^ start % 2 ^ len = b / 2 ^ start % 2 ^ len := by
  obtain ⟨rest, rfl⟩ := Nat.exists_eq_add_of_le h
  have hsplit : k * 2 ^ (start + len + rest) + b = b + k * 2 ^ rest * 2 ^ len * 2 ^ start := by
    rw [Nat.pow_add, Nat.pow_add]
    ring
  rw [hsplit, Nat.add_mul_div_right _ _ (Nat.two_pow_pos start), Nat.add_mul_mod_self_right]

theorem mod_div_mod (x : Nat) {width start len : Nat} (h : start + len ≤ width) :
    x % 2 ^ width / 2 ^ start % 2 ^ len = x / 2 ^ start % 2 ^ len := by
  rw [← div_mod_of_add_le (x / 2 ^ width) (x % 2 ^ width) h, Nat.div_add_mod']

/-- The bits that choose the class, as a number. -/
theorem toNat_index (w : UInt32) :
    (index w).toNat = w.toNat / 2 ^ 20 % 2 ^ 8 * 2 ^ 4 + w.toNat / 2 ^ 4 % 2 ^ 4 := by
  have hupper : (bits w 20 8).toNat = w.toNat / 2 ^ 20 % 2 ^ 8 :=
    toNat_bits w (by decide) (by decide)
  have hlower : (bits w 4 4).toNat = w.toNat / 2 ^ 4 % 2 ^ 4 :=
    toNat_bits w (by decide) (by decide)
  have hdigit : w.toNat / 2 ^ 4 % 2 ^ 4 < 2 ^ 4 := Nat.mod_lt _ (by decide)
  have hfits : w.toNat / 2 ^ 20 % 2 ^ 8 * 2 ^ 4 < 2 ^ 32 := by omega
  have hfour : (4 : UInt32).toNat % 32 = 4 := rfl
  rw [index, UInt32.toNat_or, UInt32.toNat_shiftLeft, hupper, hlower, hfour, Nat.shiftLeft_eq,
    Nat.mod_eq_of_lt hfits, ← Nat.shiftLeft_eq, ← Nat.shiftLeft_add_eq_or_of_lt hdigit,
    Nat.shiftLeft_eq]

section
variable {group low : Nat} (hgroup : group < 2 ^ 8) (n : Register) (hlow : low < 2 ^ 16)
include hgroup hlow

theorem toNat_assemble :
    (assemble group n low).toNat = (14 * 2 ^ 12 + group * 2 ^ 4 + n.val) * 2 ^ 16 + low := by
  have hn := n.isLt
  rw [assemble, UInt32.toNat_ofNat']
  omega

theorem condition_assemble : condition (assemble group n low) = 14 := by
  have hshift : ((assemble group n low) >>> 28).toNat = 14 := by
    have hn := n.isLt
    rw [UInt32.toNat_shiftRight, toNat_assemble hgroup n hlow, Nat.shiftRight_eq_div_pow]
    show _ / 2 ^ 28 = 14
    omega
  rw [condition, hshift]
  rfl

/-- A field of the low halfword. -/
theorem toNat_bits_low {start len : Nat} (h : start + len ≤ 16) :
    (bits (assemble group n low) start len).toNat = low / 2 ^ start % 2 ^ len := by
  rw [toNat_bits _ (by omega) (by omega), toNat_assemble hgroup n hlow, div_mod_of_add_le _ _ h]

/-- A field of the bits behind the condition. -/
theorem toNat_bits_group {start len : Nat} (h : start + len ≤ 8) :
    (bits (assemble group n low) (20 + start) len).toNat = group / 2 ^ start % 2 ^ len := by
  have hupper : ((14 * 2 ^ 12 + group * 2 ^ 4 + n.val) * 2 ^ 16 + low) / 2 ^ 20 =
      14 * 2 ^ 8 + group := by
    have hn := n.isLt
    omega
  rw [toNat_bits _ (by omega) (by omega), toNat_assemble hgroup n hlow, Nat.pow_add,
    ← Nat.div_div_eq_div_mul, hupper, div_mod_of_add_le _ _ h]

theorem isBit_assemble {i : Nat} (h : i < 8) :
    isBit (assemble group n low) (20 + i) = group.testBit i := by
  have hupper : ((14 * 2 ^ 12 + group * 2 ^ 4 + n.val) * 2 ^ 16 + low) / 2 ^ 20 =
      14 * 2 ^ 8 + group := by
    have hn := n.isLt
    omega
  have hbit : (14 * 2 ^ 8 + group) / 2 ^ i % 2 ^ 1 = group / 2 ^ i % 2 ^ 1 :=
    div_mod_of_add_le 14 group (by omega)
  rw [Nat.pow_one] at hbit
  rw [isBit_eq_decide _ (by omega), toNat_assemble hgroup n hlow, Nat.pow_add,
    ← Nat.div_div_eq_div_mul, hupper, hbit, Nat.testBit_eq_decide_div_mod_eq]

theorem reg_assemble : reg (assemble group n low) 16 = n := by
  have hfield : (bits (assemble group n low) 16 4).toNat = n.val := by
    have hn := n.isLt
    rw [toNat_bits _ (by decide) (by decide), toNat_assemble hgroup n hlow]
    omega
  rw [reg, Register.ofBits, hfield]
  exact Fin.ext (Nat.mod_eq_of_lt n.isLt)

/-- A register of the low halfword. -/
theorem reg_low {start : Nat} (h : start + 4 ≤ 16) (r : Register)
    (hr : low / 2 ^ start % 16 = r.val) : reg (assemble group n low) start = r := by
  have hfield : (bits (assemble group n low) start 4).toNat = r.val :=
    (toNat_bits_low hgroup n hlow h).trans hr
  rw [reg, Register.ofBits, hfield]
  exact Fin.ext (Nat.mod_eq_of_lt r.isLt)

/-- The lowest bits, as far as a mask goes. -/
theorem toNat_and_assemble {mask : UInt32} {k : Nat} (hmask : mask.toNat = 2 ^ k - 1)
    (hk : k ≤ 16) : (assemble group n low &&& mask).toNat = low % 2 ^ k := by
  have hbelow : 0 + k ≤ 16 := by omega
  have hfield := div_mod_of_add_le (14 * 2 ^ 12 + group * 2 ^ 4 + n.val) low hbelow
  rw [Nat.pow_zero, Nat.div_one, Nat.div_one] at hfield
  rw [UInt32.toNat_and, hmask, Nat.and_two_pow_sub_one_eq_mod, toNat_assemble hgroup n hlow, hfield]

/-- A word is read as a member of the class that it is put together for. -/
theorem decode_assemble (isV5 : Bool) {class_ : Encoding}
    (hclass : Encoding.ofIndex (UInt32.ofNat (group * 2 ^ 4 + low / 2 ^ 4 % 2 ^ 4)) = class_) :
    decode isV5 (assemble group n low) = decodeAs isV5 (assemble group n low) class_ := by
  have hindex : index (assemble group n low) =
      UInt32.ofNat (group * 2 ^ 4 + low / 2 ^ 4 % 2 ^ 4) := by
    have hupper : ((14 * 2 ^ 12 + group * 2 ^ 4 + n.val) * 2 ^ 16 + low) / 2 ^ 20 % 2 ^ 8 =
        group := by
      have hn := n.isLt
      omega
    have hlower : ((14 * 2 ^ 12 + group * 2 ^ 4 + n.val) * 2 ^ 16 + low) / 2 ^ 4 % 2 ^ 4 =
        low / 2 ^ 4 % 2 ^ 4 := div_mod_of_add_le _ _ (by decide)
    rw [← UInt32.toNat_inj, toNat_index, toNat_assemble hgroup n hlow, hupper, hlower,
      UInt32.toNat_ofNat']
    omega
  rw [decode, condition_assemble hgroup n hlow, hindex, hclass, if_neg]
  simp

end

/-! ## Words with two registers -/

/-- A word with two registers and twelve bits below them. -/
def assembleTo (group : Nat) (n d : Register) (code : Nat) : UInt32 :=
  assemble group n (d.val * 2 ^ 12 + code)

section
variable {group code : Nat} (hgroup : group < 2 ^ 8) (n d : Register) (hcode : code < 2 ^ 12)

include hcode in
theorem low_lt : d.val * 2 ^ 12 + code < 2 ^ 16 := by
  have hd := d.isLt
  omega

include hgroup hcode

theorem condition_assembleTo : condition (assembleTo group n d code) = 14 :=
  condition_assemble hgroup n (low_lt d hcode)

theorem isBit_assembleTo {i : Nat} (h : i < 8) :
    isBit (assembleTo group n d code) (20 + i) = group.testBit i :=
  isBit_assemble hgroup n (low_lt d hcode) h

theorem first_assembleTo : reg (assembleTo group n d code) 16 = n :=
  reg_assemble hgroup n (low_lt d hcode)

theorem second_assembleTo : reg (assembleTo group n d code) 12 = d := by
  have hd := d.isLt
  exact reg_low hgroup n (low_lt d hcode) (by decide) d (by omega)

/-- A field below both registers. -/
theorem toNat_bits_code {start len : Nat} (h : start + len ≤ 12) :
    (bits (assembleTo group n d code) start len).toNat = code / 2 ^ start % 2 ^ len :=
  (toNat_bits_low hgroup n (low_lt d hcode) (by omega)).trans (div_mod_of_add_le _ _ h)

/-- A register below both registers. -/
theorem reg_code {start : Nat} (h : start + 4 ≤ 12) (r : Register)
    (hr : code / 2 ^ start % 2 ^ 4 = r.val) : reg (assembleTo group n d code) start = r :=
  reg_low hgroup n (low_lt d hcode) (by omega) r ((div_mod_of_add_le _ _ h).trans hr)

/-- The lowest bits, as far as a mask goes. -/
theorem toNat_and_code {mask : UInt32} {k : Nat} (hmask : mask.toNat = 2 ^ k - 1) (hk : k ≤ 12) :
    (assembleTo group n d code &&& mask).toNat = code % 2 ^ k := by
  have hbelow : 0 + k ≤ 12 := by omega
  have hfield := div_mod_of_add_le d.val code hbelow
  rw [Nat.pow_zero, Nat.div_one, Nat.div_one] at hfield
  exact (toNat_and_assemble hgroup n (low_lt d hcode) hmask (by omega)).trans hfield

theorem shiftKind_code (shift : ShiftKind) (h : code / 2 ^ 5 % 2 ^ 2 = shift.ctorIdx) :
    ShiftKind.ofBits (assembleTo group n d code) = shift := by
  have hfield : bits (assembleTo group n d code) 5 2 = UInt32.ofNat shift.ctorIdx := by
    rw [← UInt32.toNat_inj, toNat_bits_code hgroup n d hcode (by decide), h]
    cases shift <;> rfl
  rw [ShiftKind.ofBits, hfield]
  cases shift <;> rfl

theorem decode_assembleTo (isV5 : Bool) {class_ : Encoding}
    (hclass : Encoding.ofIndex (UInt32.ofNat (group * 2 ^ 4 + code / 2 ^ 4 % 2 ^ 4)) = class_) :
    decode isV5 (assembleTo group n d code) =
      decodeAs isV5 (assembleTo group n d code) class_ := by
  refine decode_assemble hgroup n (low_lt d hcode) isV5 ?_
  rw [div_mod_of_add_le d.val code (by decide)]
  exact hclass

end

/-! ## Registers shifted by a number -/

/-- A register that is shifted by a number, in twelve bits. -/
def shiftCode (m : Register) (shift : ShiftKind) (amount : Nat) : Nat :=
  amount * 2 ^ 7 + shift.ctorIdx * 2 ^ 5 + m.val

section
variable (m : Register) (shift : ShiftKind)

theorem shiftCode_lt {amount : Nat} (h : amount < 2 ^ 5) : shiftCode m shift amount < 2 ^ 12 := by
  have hm := m.isLt
  have hshift := shift.ctorIdx_lt
  unfold shiftCode
  omega

/-- The bits that tell it from a register shifted by a register. -/
theorem shiftCode_digit (amount : Nat) :
    shiftCode m shift amount / 2 ^ 4 % 2 ^ 4 = 2 * (amount % 2 * 2 ^ 2 + shift.ctorIdx) := by
  have hm := m.isLt
  have hshift := shift.ctorIdx_lt
  unfold shiftCode
  omega

theorem read_shiftCode {group : Nat} (hgroup : group < 2 ^ 8) (n d : Register) {amount : UInt32}
    (h : amount.toNat < 2 ^ 5) :
    let word := assembleTo group n d (shiftCode m shift amount.toNat)
    reg word 0 = m ∧ ShiftKind.ofBits word = shift ∧ bits word 7 5 = amount := by
  have hm := m.isLt
  have hshift := shift.ctorIdx_lt
  have hcode := shiftCode_lt m shift h
  have hlast : shiftCode m shift amount.toNat / 2 ^ 0 % 2 ^ 4 = m.val := by
    unfold shiftCode
    omega
  have hkind : shiftCode m shift amount.toNat / 2 ^ 5 % 2 ^ 2 = shift.ctorIdx := by
    unfold shiftCode
    omega
  have hcount : shiftCode m shift amount.toNat / 2 ^ 7 % 2 ^ 5 = amount.toNat := by
    unfold shiftCode
    omega
  refine ⟨reg_code hgroup n d hcode (by decide) m hlast, shiftKind_code hgroup n d hcode shift hkind,
    ?_⟩
  rw [← UInt32.toNat_inj, toNat_bits_code hgroup n d hcode (by decide), hcount]

end

/-! ## Data processing -/

namespace Operand

/-- Whether the operand is one without a register. -/
def isImmediate (operand : Operand) : Bool := operand matches immediate ..

/-- The class of a data-processing instruction with this operand. -/
def encoding : Operand → Encoding
  | immediate .. => .aluImmediate
  | shiftedImmediate .. => .aluShiftedImmediate
  | shiftedRegister .. => .aluShiftedRegister

/-- The low twelve bits of a data-processing instruction. -/
def code : Operand → Nat
  | immediate value rotate => rotate.toNat / 2 * 2 ^ 8 + value.toNat
  | shiftedImmediate m shift amount => shiftCode m shift amount.toNat
  | shiftedRegister m shift amount => amount.val * 2 ^ 8 + (2 * shift.ctorIdx + 1) * 2 ^ 4 + m.val

/-- Whether the numbers of the operand fit their fields. -/
def Fits : Operand → Prop
  | immediate value rotate => value.toNat < 2 ^ 8 ∧ rotate.toNat < 2 ^ 5 ∧ rotate.toNat % 2 = 0
  | shiftedImmediate _ _ amount => amount.toNat < 2 ^ 5
  | shiftedRegister .. => True

end Operand

/-- The bits behind the condition of a data-processing instruction. -/
def aluGroup (op : AluOp) (setFlags immediate : Bool) : Nat :=
  immediate.toNat * 2 ^ 5 + op.ctorIdx * 2 + setFlags.toNat

/-- The word of a data-processing instruction. -/
def encodeAlu (op : AluOp) (setFlags : Bool) (n d : Register) (operand : Operand) : UInt32 :=
  assembleTo (aluGroup op setFlags operand.isImmediate) n d operand.code

theorem AluOp.ctorIdx_lt (op : AluOp) : op.ctorIdx < 16 := by cases op <;> decide

theorem AluOp.all_ctorIdx (op : AluOp) : AluOp.all[Fin.ofNat 16 op.ctorIdx] = op := by
  cases op <;> rfl

theorem aluOp_of_field {inst : UInt32} {op : AluOp} (h : (bits inst 21 4).toNat = op.ctorIdx) :
    aluOp inst = op :=
  (congrArg (fun k => AluOp.all[Fin.ofNat 16 k]) h).trans op.all_ctorIdx

section
variable (op : AluOp) (setFlags immediate : Bool)

theorem aluGroup_lt : aluGroup op setFlags immediate < 2 ^ 8 := by
  have hop := op.ctorIdx_lt
  have hset := setFlags.toNat_lt
  have himmediate := immediate.toNat_lt
  unfold aluGroup
  omega

theorem op_aluGroup : aluGroup op setFlags immediate / 2 ^ 1 % 2 ^ 4 = op.ctorIdx := by
  have hop := op.ctorIdx_lt
  have hset := setFlags.toNat_lt
  unfold aluGroup
  omega

theorem setFlags_aluGroup : (aluGroup op setFlags immediate).testBit 0 = setFlags := by
  have hlast : aluGroup op setFlags immediate % 2 = setFlags.toNat := by
    have hset := setFlags.toNat_lt
    unfold aluGroup
    omega
  rw [Nat.testBit_zero, hlast]
  cases setFlags <;> rfl

/-- What is read from the parts that all data-processing instructions share. -/
theorem alu_assembleTo (n d : Register) {code : Nat} (hcode : code < 2 ^ 12) (operand : Operand) :
    alu (assembleTo (aluGroup op setFlags immediate) n d code) operand =
      .alu op setFlags n d operand := by
  have hgroup := aluGroup_lt op setFlags immediate
  have hop : aluOp (assembleTo (aluGroup op setFlags immediate) n d code) = op :=
    aluOp_of_field ((toNat_bits_group hgroup n (low_lt d hcode) (by decide : 1 + 4 ≤ 8)).trans
      (op_aluGroup op setFlags immediate))
  have hset : isBit (assembleTo (aluGroup op setFlags immediate) n d code) 20 = setFlags :=
    (isBit_assembleTo hgroup n d hcode (by decide : 0 < 8)).trans
      (setFlags_aluGroup op setFlags immediate)
  rw [alu, hop, hset, first_assembleTo hgroup n d hcode, second_assembleTo hgroup n d hcode]

end

section
variable {op : AluOp} {setFlags : Bool}

/-- A comparison that set no flags would be read as another class. -/
theorem ofIndex_aluImmediate (h : (op.writes || setFlags) = true) (k : Fin 16) :
    Encoding.ofIndex (UInt32.ofNat (aluGroup op setFlags true * 2 ^ 4 + k.val)) =
      .aluImmediate := by
  revert h k
  cases op <;> cases setFlags <;> decide +kernel

theorem ofIndex_aluShiftedImmediate (h : (op.writes || setFlags) = true) (k : Fin 8) :
    Encoding.ofIndex (UInt32.ofNat (aluGroup op setFlags false * 2 ^ 4 + 2 * k.val)) =
      .aluShiftedImmediate := by
  revert h k
  cases op <;> cases setFlags <;> decide +kernel

theorem ofIndex_aluShiftedRegister (h : (op.writes || setFlags) = true) (k : Fin 4) :
    Encoding.ofIndex (UInt32.ofNat (aluGroup op setFlags false * 2 ^ 4 + (2 * k.val + 1))) =
      .aluShiftedRegister := by
  revert h k
  cases op <;> cases setFlags <;> decide +kernel

end

namespace Operand.Fits

variable {operand : Operand}

theorem code_lt (h : operand.Fits) : operand.code < 2 ^ 12 := by
  cases operand with
  | immediate value rotate =>
    obtain ⟨hvalue, hrotate, -⟩ := h
    simp only [code]
    omega
  | shiftedImmediate m shift amount => exact shiftCode_lt m shift h
  | shiftedRegister m shift amount =>
    have hm := m.isLt
    have hshift := shift.ctorIdx_lt
    have hamount := amount.isLt
    simp only [code]
    omega

end Operand.Fits

theorem Operand.ofIndex_alu {op : AluOp} {setFlags : Bool} (hset : (op.writes || setFlags) = true)
    (operand : Operand) :
    Encoding.ofIndex (UInt32.ofNat (aluGroup op setFlags operand.isImmediate * 2 ^ 4 +
      operand.code / 2 ^ 4 % 2 ^ 4)) = operand.encoding := by
  cases operand with
  | immediate value rotate => exact ofIndex_aluImmediate hset ⟨_, Nat.mod_lt _ (by decide)⟩
  | shiftedImmediate m shift amount =>
    have hshift := shift.ctorIdx_lt
    simp only [code, shiftCode_digit]
    exact ofIndex_aluShiftedImmediate hset ⟨amount.toNat % 2 * 2 ^ 2 + shift.ctorIdx, by omega⟩
  | shiftedRegister m shift amount =>
    have hm := m.isLt
    have hshift := shift.ctorIdx_lt
    have hdigit : (shiftedRegister m shift amount).code / 2 ^ 4 % 2 ^ 4 =
        2 * shift.ctorIdx + 1 := by
      simp only [code]
      omega
    rw [hdigit]
    exact ofIndex_aluShiftedRegister hset ⟨shift.ctorIdx, hshift⟩

namespace Operand.Fits

variable {operand : Operand}

/-- The operand is read back. -/
theorem decodeAs_alu (h : operand.Fits) (isV5 : Bool) {group : Nat} (hgroup : group < 2 ^ 8)
    (n d : Register) :
    decodeAs isV5 (assembleTo group n d operand.code) operand.encoding =
      alu (assembleTo group n d operand.code) operand := by
  have hcode := h.code_lt
  cases operand with
  | immediate value rotate =>
    obtain ⟨hvalue, hrotate, heven⟩ := h
    have hmask : (0xFF : UInt32).toNat = 2 ^ 8 - 1 := rfl
    have hone : (1 : UInt32).toNat % 32 = 1 := rfl
    have hbyte : assembleTo group n d (immediate value rotate).code &&& 0xFF = value := by
      rw [← UInt32.toNat_inj, toNat_and_code hgroup n d hcode hmask (by decide)]
      simp only [code]
      omega
    have hhalf : bits (assembleTo group n d (immediate value rotate).code) 8 4 <<< 1 = rotate := by
      rw [← UInt32.toNat_inj, UInt32.toNat_shiftLeft, hone, Nat.shiftLeft_eq,
        toNat_bits_code hgroup n d hcode (by decide)]
      simp only [code]
      omega
    simp only [encoding, decodeAs]
    rw [hbyte, hhalf]
  | shiftedImmediate m shift amount =>
    obtain ⟨hlast, hkind, hcount⟩ := read_shiftCode m shift hgroup n d h
    simp only [encoding, decodeAs, code]
    rw [hlast, hkind, hcount]
  | shiftedRegister m shift amount =>
    have hm := m.isLt
    have hshift := shift.ctorIdx_lt
    have hamount := amount.isLt
    have hlast : (shiftedRegister m shift amount).code / 2 ^ 0 % 2 ^ 4 = m.val := by
      simp only [code]
      omega
    have hkind : (shiftedRegister m shift amount).code / 2 ^ 5 % 2 ^ 2 = shift.ctorIdx := by
      simp only [code]
      omega
    have hcount : (shiftedRegister m shift amount).code / 2 ^ 8 % 2 ^ 4 = amount.val := by
      simp only [code]
      omega
    simp only [encoding, decodeAs]
    rw [reg_code hgroup n d hcode (by decide) m hlast, shiftKind_code hgroup n d hcode shift hkind,
      reg_code hgroup n d hcode (by decide) amount hcount]

end Operand.Fits

/-- A data-processing instruction is read back from its word. -/
theorem decode_encodeAlu (isV5 : Bool) {op : AluOp} {setFlags : Bool} (n d : Register)
    {operand : Operand} (hset : (op.writes || setFlags) = true) (hfits : operand.Fits) :
    decode isV5 (encodeAlu op setFlags n d operand) = .alu op setFlags n d operand := by
  have hgroup := aluGroup_lt op setFlags operand.isImmediate
  rw [encodeAlu, decode_assembleTo hgroup n d hfits.code_lt isV5 (operand.ofIndex_alu hset),
    hfits.decodeAs_alu isV5 hgroup n d, alu_assembleTo op setFlags _ n d hfits.code_lt]

/-! ## Products of words -/

/-- The three bits that choose a product. -/
def MulOp.code : MulOp → Nat
  | mul => 0
  | mla => 1
  | umull => 4
  | umlal => 5
  | smull => 6
  | smlal => 7

theorem decodeAs_multiply (isV5 : Bool) {inst : UInt32} {op : MulOp}
    (h : bits inst 21 3 = UInt32.ofNat op.code) :
    decodeAs isV5 inst .multiply = multiply inst op := by
  rw [decodeAs, h]
  cases op <;> rfl

/-- The bits behind the condition of a multiplication. -/
def multiplyGroup (op : MulOp) (setFlags : Bool) : Nat := op.code * 2 + setFlags.toNat

theorem multiplyGroup_lt (op : MulOp) (setFlags : Bool) : multiplyGroup op setFlags < 2 ^ 8 := by
  cases op <;> cases setFlags <;> decide

/-- The low twelve bits of a multiplication. -/
def multiplyCode (s m : Register) : Nat := s.val * 2 ^ 8 + 9 * 2 ^ 4 + m.val

theorem multiplyCode_lt (s m : Register) : multiplyCode s m < 2 ^ 12 := by
  have hs := s.isLt
  have hm := m.isLt
  unfold multiplyCode
  omega

/-- The word of a multiplication. -/
def encodeMultiply (op : MulOp) (setFlags : Bool) (d n s m : Register) : UInt32 :=
  assembleTo (multiplyGroup op setFlags) d n (multiplyCode s m)

/-- A multiplication is read back from its word. -/
theorem decode_encodeMultiply (isV5 : Bool) (op : MulOp) (setFlags : Bool) (d n s m : Register) :
    decode isV5 (encodeMultiply op setFlags d n s m) = .multiply op setFlags d n s m := by
  have hs := s.isLt
  have hm := m.isLt
  have hgroup := multiplyGroup_lt op setFlags
  have hcode := multiplyCode_lt s m
  have hdigit : multiplyCode s m / 2 ^ 4 % 2 ^ 4 = 9 := by
    unfold multiplyCode
    omega
  have hs' : multiplyCode s m / 2 ^ 8 % 2 ^ 4 = s.val := by
    unfold multiplyCode
    omega
  have hm' : multiplyCode s m / 2 ^ 0 % 2 ^ 4 = m.val := by
    unfold multiplyCode
    omega
  have hclass : Encoding.ofIndex (UInt32.ofNat (multiplyGroup op setFlags * 2 ^ 4 +
      multiplyCode s m / 2 ^ 4 % 2 ^ 4)) = .multiply := by
    rw [hdigit]
    cases op <;> cases setFlags <;> decide
  have hop : bits (encodeMultiply op setFlags d n s m) 21 3 = UInt32.ofNat op.code := by
    rw [← UInt32.toNat_inj]
    refine (toNat_bits_group hgroup d (low_lt n hcode) (by decide : 1 + 3 ≤ 8)).trans ?_
    cases op <;> cases setFlags <;> rfl
  have hflag : isBit (encodeMultiply op setFlags d n s m) 20 = setFlags := by
    refine (isBit_assembleTo hgroup d n hcode (by decide : 0 < 8)).trans ?_
    cases op <;> cases setFlags <;> rfl
  rw [encodeMultiply] at hop hflag ⊢
  rw [decode_assembleTo hgroup d n hcode isV5 hclass, decodeAs_multiply isV5 hop, multiply, hflag,
    first_assembleTo hgroup d n hcode, second_assembleTo hgroup d n hcode,
    reg_code hgroup d n hcode (by decide) s hs', reg_code hgroup d n hcode (by decide) m hm']

end Arm
end Handheld
