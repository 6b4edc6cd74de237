import Handheld.Proofs.Arm.Encoding

/-!
# Encoding of transfers

The words of block transfers and single transfers, and the instructions that have words.
-/

namespace Handheld.Arm

open Word

/-! ## Eight bits -/

/-- Eight bits as a number, the lowest one first. -/
def groupOf (bits : Vector Bool 8) : Nat := Nat.ofBits fun i : Fin 8 => bits[i]

theorem groupOf_lt (bits : Vector Bool 8) : groupOf bits < 2 ^ 8 := Nat.ofBits_lt_two_pow _

theorem isBit_groupOf (bits : Vector Bool 8) (n : Register) {low : Nat} (hlow : low < 2 ^ 16)
    (i : Fin 8) : isBit (assemble (groupOf bits) n low) (20 + i.val) = bits[i] :=
  (isBit_assemble (groupOf_lt bits) n hlow i.isLt).trans (Nat.testBit_ofBits_lt _ _ i.isLt)

/-! ## Block transfers -/

/-- The bits behind the condition of a block transfer. -/
def blockGroup (statusBit : Bool) (mode : BlockMode) : Vector Bool 8 :=
  #v[mode.load, mode.writeback, statusBit, mode.up, mode.pre, false, false, true]

theorem ofIndex_blockGroup : ∀ (load writeback statusBit up pre : Bool) (k : Fin 16),
    Encoding.ofIndex (UInt32.ofNat (groupOf (blockGroup statusBit
      { pre, up, load, writeback }) * 2 ^ 4 + k.val)) = .blockTransfer := by
  decide +kernel

/-- The word of a block transfer. -/
def encodeBlock (n : Register) (list : UInt16) (statusBit : Bool) (mode : BlockMode) : UInt32 :=
  assemble (groupOf (blockGroup statusBit mode)) n list.toNat

/-- A block transfer is read back from its word. -/
theorem decode_encodeBlock (isV5 : Bool) (n : Register) (list : UInt16) (statusBit : Bool)
    (mode : BlockMode) :
    decode isV5 (encodeBlock n list statusBit mode) = .blockTransfer n list statusBit mode := by
  have hlow := list.toNat_lt
  have hgroup := groupOf_lt (blockGroup statusBit mode)
  have hclass := ofIndex_blockGroup mode.load mode.writeback statusBit mode.up mode.pre
    ⟨list.toNat / 2 ^ 4 % 2 ^ 4, Nat.mod_lt _ (by decide)⟩
  have hbit := isBit_groupOf (blockGroup statusBit mode) n hlow
  have hlist : (encodeBlock n list statusBit mode).toUInt16 = list := by
    rw [← UInt16.toNat_inj, UInt32.toNat_toUInt16, encodeBlock, toNat_assemble hgroup n hlow]
    omega
  rw [encodeBlock, decode_assemble hgroup n hlow isV5 hclass, ← encodeBlock]
  show Instruction.blockTransfer (reg (encodeBlock n list statusBit mode) 16)
    (encodeBlock n list statusBit mode).toUInt16 (isBit _ 22)
    ⟨isBit _ 24, isBit _ 23, isBit _ 20, isBit _ 21⟩ = _
  rw [hlist, encodeBlock, reg_assemble hgroup n hlow]
  congr 1
  · exact hbit 2
  · rw [BlockMode.mk.injEq]
    exact ⟨hbit 4, hbit 3, hbit 0, hbit 1⟩

/-! ## Single transfers -/

namespace TransferKind

/-- Whether an unsigned byte or a word is moved. -/
def isPlain (k : TransferKind) : Bool := k matches loadByte | loadWord | storeByte | storeWord

/-- Whether a byte is moved. -/
def isByte (k : TransferKind) : Bool := k matches loadByte | storeByte

/-- The two bits that choose a transfer of halfwords or signed bytes, none for the others. -/
def extraCode : TransferKind → Nat
  | loadHalf | storeHalf => 1
  | loadSignedByte => 2
  | loadSignedHalf => 3
  | _ => 0

theorem extraCode_lt (k : TransferKind) : k.extraCode < 4 := by cases k <;> decide

theorem extraCode_of_plain {k : TransferKind} (h : k.isPlain = true) : k.extraCode = 0 := by
  cases k <;> first | rfl | cases h

end TransferKind

namespace Offset

/-- Whether the offset is a number, not a register. -/
def isImmediate (offset : Offset) : Bool := offset matches immediate _

/-- The low twelve bits of a transfer of an unsigned byte or a word. -/
def plainCode : Offset → Nat
  | immediate value => value.toNat
  | register m => m.val
  | shiftedRegister m shift amount => shiftCode m shift amount.toNat

/-- The low twelve bits of another transfer, given the two bits that choose it. -/
def extraCode (kind : Nat) : Offset → Nat
  | immediate value =>
    value.toNat / 2 ^ 4 * 2 ^ 8 + (9 + 2 * kind) * 2 ^ 4 + value.toNat % 2 ^ 4
  | register m | shiftedRegister m _ _ => (9 + 2 * kind) * 2 ^ 4 + m.val

end Offset

/-- Whether a transfer can be encoded with its offset, doublewords apart. -/
def TransferFits (kind : TransferKind) : Offset → Prop
  | .immediate value =>
    if kind.isPlain then value.toNat < 2 ^ 12 else value.toNat < 2 ^ 8 ∧ kind.extraCode ≠ 0
  | .register _ => kind.extraCode ≠ 0
  | .shiftedRegister _ _ amount => kind.isPlain = true ∧ amount.toNat < 2 ^ 5

/-- The bits behind the condition of a transfer of an unsigned byte or a word. -/
def plainGroup (offset : Offset) (mode : TransferMode) : Vector Bool 8 :=
  #v[mode.kind.isLoad, mode.writeback, mode.kind.isByte, mode.up, mode.pre, !offset.isImmediate,
    true, false]

/-- The bits behind the condition of another transfer. -/
def extraGroup (offset : Offset) (mode : TransferMode) : Vector Bool 8 :=
  #v[mode.kind.isLoad, mode.writeback, offset.isImmediate, mode.up, mode.pre, false, false, false]

/-- The addressing is read back, if a transfer that adds its offset afterwards keeps the sum. -/
theorem transferMode_of_bits {inst : UInt32} {mode : TransferMode}
    (hmode : (mode.pre || mode.writeback) = true) (hpre : isBit inst 24 = mode.pre)
    (hup : isBit inst 23 = mode.up) (hwriteback : isBit inst 21 = mode.writeback) :
    transferMode inst mode.kind = mode := by
  have hkept : (mode.writeback || !mode.pre) = mode.writeback := by
    cases hpre : mode.pre <;> simp_all
  rw [transferMode, hpre, hup, hwriteback, hkept]

/-! ## Unsigned bytes and words -/

/-- The word of a transfer of an unsigned byte or a word. -/
def encodePlain (n d : Register) (offset : Offset) (mode : TransferMode) : UInt32 :=
  assembleTo (groupOf (plainGroup offset mode)) n d offset.plainCode

theorem ofIndex_plainImmediate : ∀ (load writeback byte up pre : Bool) (k : Fin 16),
    Encoding.ofIndex (UInt32.ofNat (groupOf
      #v[load, writeback, byte, up, pre, false, true, false] * 2 ^ 4 + k.val)) = .transfer := by
  decide +kernel

theorem ofIndex_plainRegister : ∀ (load writeback byte up pre : Bool) (k : Fin 8),
    Encoding.ofIndex (UInt32.ofNat (groupOf
      #v[load, writeback, byte, up, pre, true, true, false] * 2 ^ 4 + 2 * k.val)) = .transfer := by
  decide +kernel

/-- What a transfer of an unsigned byte or a word moves, by the bits that choose it. -/
theorem decodeAs_plainTransfer (isV5 : Bool) {inst : UInt32} {kind : TransferKind}
    {offset : Offset} (hplain : kind.isPlain = true) (hload : isBit inst 20 = kind.isLoad)
    (hbyte : isBit inst 22 = kind.isByte)
    (hoffset : (if isBit inst 25 then
      .shiftedRegister (reg inst 0) (ShiftKind.ofBits inst) (bits inst 7 5)
      else .immediate (inst &&& 0xFFF)) = offset) :
    decodeAs isV5 inst .transfer =
      .transfer (reg inst 16) (reg inst 12) offset (transferMode inst kind) := by
  rw [decodeAs, hload, hbyte, ← hoffset]
  cases kind <;> first | rfl | cases hplain

namespace TransferFits

variable {kind : TransferKind} {offset : Offset} {group : Nat}

theorem plainCode_lt (h : TransferFits kind offset) (hplain : kind.isPlain = true) :
    offset.plainCode < 2 ^ 12 := by
  cases offset with
  | immediate value =>
    rw [TransferFits, if_pos hplain] at h
    exact h
  | register m =>
    have hm := m.isLt
    simp only [Offset.plainCode]
    omega
  | shiftedRegister m shift amount => exact shiftCode_lt m shift h.2

/-- The offset of a transfer of an unsigned byte or a word is read back. -/
theorem read_plainOffset (h : TransferFits kind offset) (hplain : kind.isPlain = true)
    (hgroup : group < 2 ^ 8) (n d : Register) :
    let word := assembleTo group n d offset.plainCode
    (if !offset.isImmediate then
      .shiftedRegister (reg word 0) (ShiftKind.ofBits word) (bits word 7 5)
    else .immediate (word &&& 0xFFF)) = offset := by
  intro word
  have hcode := h.plainCode_lt hplain
  cases offset with
  | immediate value =>
    have hmask : (0xFFF : UInt32).toNat = 2 ^ 12 - 1 := rfl
    have hread : word &&& 0xFFF = value := by
      rw [← UInt32.toNat_inj, toNat_and_code hgroup n d hcode hmask (by decide)]
      exact Nat.mod_eq_of_lt hcode
    exact congrArg Offset.immediate hread
  | register m => exact absurd (TransferKind.extraCode_of_plain hplain) h
  | shiftedRegister m shift amount =>
    exact (Offset.shiftedRegister.injEq ..).mpr (read_shiftCode m shift hgroup n d h.2)

/-- The class of a transfer of an unsigned byte or a word. -/
theorem ofIndex_plain {mode : TransferMode} (h : TransferFits mode.kind offset)
    (hplain : mode.kind.isPlain = true) :
    Encoding.ofIndex (UInt32.ofNat (groupOf (plainGroup offset mode) * 2 ^ 4 +
      offset.plainCode / 2 ^ 4 % 2 ^ 4)) = .transfer := by
  cases offset with
  | immediate value => exact ofIndex_plainImmediate _ _ _ _ _ ⟨_, Nat.mod_lt _ (by decide)⟩
  | register m => exact absurd (TransferKind.extraCode_of_plain hplain) h
  | shiftedRegister m shift amount =>
    have hshift := shift.ctorIdx_lt
    simp only [Offset.plainCode, shiftCode_digit]
    exact ofIndex_plainRegister _ _ _ _ _ ⟨amount.toNat % 2 * 2 ^ 2 + shift.ctorIdx, by omega⟩

end TransferFits

/-- A transfer of an unsigned byte or a word is read back from its word. -/
theorem decode_encodePlain (isV5 : Bool) (n d : Register) {offset : Offset} {mode : TransferMode}
    (hplain : mode.kind.isPlain = true) (hmode : (mode.pre || mode.writeback) = true)
    (hfits : TransferFits mode.kind offset) :
    decode isV5 (encodePlain n d offset mode) = .transfer n d offset mode := by
  have hcode := hfits.plainCode_lt hplain
  have hgroup := groupOf_lt (plainGroup offset mode)
  let word := assembleTo (groupOf (plainGroup offset mode)) n d offset.plainCode
  have hbit : ∀ i : Fin 8, isBit word (20 + i.val) = (plainGroup offset mode)[i] :=
    isBit_groupOf _ n (low_lt d hcode)
  have hoffset := hfits.read_plainOffset hplain hgroup n d
  rw [← show isBit word 25 = !offset.isImmediate from hbit 5] at hoffset
  rw [encodePlain, decode_assembleTo hgroup n d hcode isV5 (hfits.ofIndex_plain hplain),
    decodeAs_plainTransfer isV5 hplain (hbit 0) (hbit 2) hoffset,
    transferMode_of_bits hmode (hbit 4) (hbit 3) (hbit 1), first_assembleTo hgroup n d hcode,
    second_assembleTo hgroup n d hcode]

/-! ## Halfwords and signed bytes -/

/-- The word of a transfer of a halfword or a signed byte. -/
def encodeExtra (n d : Register) (offset : Offset) (mode : TransferMode) : UInt32 :=
  assembleTo (groupOf (extraGroup offset mode)) n d (offset.extraCode mode.kind.extraCode)

theorem ofIndex_extra : ∀ (load writeback immediate up pre : Bool) (kind : Fin 3),
    Encoding.ofIndex (UInt32.ofNat (groupOf
      #v[load, writeback, immediate, up, pre, false, false, false] * 2 ^ 4 +
        (9 + 2 * (kind.val + 1)))) = .extraTransfer := by
  decide +kernel

/-- What another transfer moves, by the bits that choose it. -/
theorem extraKind_of_bits (isV5 : Bool) {inst : UInt32} {kind : TransferKind}
    (hextra : kind.isPlain = false) (hcoded : kind.extraCode ≠ 0)
    (hload : isBit inst 20 = kind.isLoad) (hkind : bits inst 5 2 = UInt32.ofNat kind.extraCode) :
    extraKind? isV5 inst = some kind := by
  rw [extraKind?, hload, hkind]
  cases kind <;> first | rfl | exact absurd rfl hcoded

theorem decodeAs_extraTransfer {isV5 : Bool} {inst : UInt32} {kind : TransferKind}
    (h : extraKind? isV5 inst = some kind) :
    decodeAs isV5 inst .extraTransfer =
      .transfer (reg inst 16) (reg inst 12) (extraOffset inst) (transferMode inst kind) := by
  rw [decodeAs, h]

namespace TransferFits

variable {kind : TransferKind} {offset : Offset} {group : Nat}

theorem extraCode_lt (h : TransferFits kind offset) (hextra : kind.isPlain = false) :
    offset.extraCode kind.extraCode < 2 ^ 12 := by
  have hkind := kind.extraCode_lt
  cases offset with
  | immediate value =>
    rw [TransferFits, hextra, if_neg (by decide)] at h
    have hvalue := h.1
    simp only [Offset.extraCode]
    omega
  | register m | shiftedRegister m _ _ =>
    have hm := m.isLt
    simp only [Offset.extraCode]
    omega

/-- The four bits that mark another transfer, with the two that choose it. -/
theorem extraCode_digit (h : TransferFits kind offset) (hextra : kind.isPlain = false) :
    offset.extraCode kind.extraCode / 2 ^ 4 % 2 ^ 4 = 9 + 2 * kind.extraCode := by
  have hkind := kind.extraCode_lt
  cases offset with
  | immediate value =>
    have hdivided : (Offset.immediate value).extraCode kind.extraCode / 2 ^ 4 =
        value.toNat / 2 ^ 4 * 2 ^ 4 + (9 + 2 * kind.extraCode) := by
      simp only [Offset.extraCode]
      omega
    rw [hdivided]
    omega
  | register m =>
    have hm := m.isLt
    simp only [Offset.extraCode]
    omega
  | shiftedRegister m shift amount =>
    have hplain := h.1
    rw [hextra] at hplain
    cases hplain

/-- The offset of another transfer is read back. -/
theorem read_extraOffset (h : TransferFits kind offset) (hextra : kind.isPlain = false)
    (hgroup : group < 2 ^ 8) (n d : Register) :
    let word := assembleTo group n d (offset.extraCode kind.extraCode)
    (if offset.isImmediate then .immediate ((bits word 8 4 <<< 4) ||| bits word 0 4)
    else .register (reg word 0)) = offset := by
  intro word
  have hkind := kind.extraCode_lt
  have hcode := h.extraCode_lt hextra
  cases offset with
  | immediate value =>
    rw [TransferFits, hextra, if_neg (by decide)] at h
    have hvalue := h.1
    have hupper : (bits word 8 4).toNat = value.toNat / 2 ^ 4 := by
      have hdivided : (Offset.immediate value).extraCode kind.extraCode / 2 ^ 8 =
          value.toNat / 2 ^ 4 := by
        simp only [Offset.extraCode]
        omega
      rw [toNat_bits_code hgroup n d hcode (by decide), hdivided]
      omega
    have hlower : (bits word 0 4).toNat = value.toNat % 2 ^ 4 := by
      rw [toNat_bits_code hgroup n d hcode (by decide)]
      simp only [Offset.extraCode]
      omega
    have hdigit : value.toNat % 2 ^ 4 < 2 ^ 4 := Nat.mod_lt _ (by decide)
    have hfits : value.toNat / 2 ^ 4 * 2 ^ 4 < 2 ^ 32 := by omega
    have hfour : (4 : UInt32).toNat % 32 = 4 := rfl
    have hread : (bits word 8 4 <<< 4) ||| bits word 0 4 = value := by
      rw [← UInt32.toNat_inj, UInt32.toNat_or, UInt32.toNat_shiftLeft, hupper, hlower, hfour,
        Nat.shiftLeft_eq, Nat.mod_eq_of_lt hfits, ← Nat.shiftLeft_eq,
        ← Nat.shiftLeft_add_eq_or_of_lt hdigit, Nat.shiftLeft_eq]
      omega
    exact congrArg Offset.immediate hread
  | register m =>
    have hm := m.isLt
    have hlast : (Offset.register m).extraCode kind.extraCode / 2 ^ 0 % 2 ^ 4 = m.val := by
      simp only [Offset.extraCode]
      omega
    exact congrArg Offset.register (reg_code hgroup n d hcode (by decide) m hlast)
  | shiftedRegister m shift amount =>
    have hplain := h.1
    rw [hextra] at hplain
    cases hplain

end TransferFits

/-- A transfer of a halfword or a signed byte is read back from its word. -/
theorem decode_encodeExtra (isV5 : Bool) (n d : Register) {offset : Offset} {mode : TransferMode}
    (hextra : mode.kind.isPlain = false) (hcoded : mode.kind.extraCode ≠ 0)
    (hmode : (mode.pre || mode.writeback) = true) (hfits : TransferFits mode.kind offset) :
    decode isV5 (encodeExtra n d offset mode) = .transfer n d offset mode := by
  have hcode := hfits.extraCode_lt hextra
  have hdigit := hfits.extraCode_digit hextra
  have hkinds := mode.kind.extraCode_lt
  have hgroup := groupOf_lt (extraGroup offset mode)
  let word := assembleTo (groupOf (extraGroup offset mode)) n d
    (offset.extraCode mode.kind.extraCode)
  have hbit : ∀ i : Fin 8, isBit word (20 + i.val) = (extraGroup offset mode)[i] :=
    isBit_groupOf _ n (low_lt d hcode)
  have hclass : Encoding.ofIndex (UInt32.ofNat (groupOf (extraGroup offset mode) * 2 ^ 4 +
      offset.extraCode mode.kind.extraCode / 2 ^ 4 % 2 ^ 4)) = .extraTransfer := by
    have hlast : mode.kind.extraCode - 1 + 1 = mode.kind.extraCode := by omega
    have hindex := ofIndex_extra mode.kind.isLoad mode.writeback offset.isImmediate mode.up mode.pre
      ⟨mode.kind.extraCode - 1, by omega⟩
    rw [hlast] at hindex
    rw [hdigit]
    exact hindex
  have hkind : bits word 5 2 = UInt32.ofNat mode.kind.extraCode := by
    have hread : offset.extraCode mode.kind.extraCode / 2 ^ 5 % 2 ^ 2 = mode.kind.extraCode := by
      omega
    rw [← UInt32.toNat_inj, toNat_bits_code hgroup n d hcode (by decide), hread,
      UInt32.toNat_ofNat']
    omega
  have hoffset : extraOffset word = offset := by
    rw [extraOffset, show isBit word 22 = offset.isImmediate from hbit 2]
    exact hfits.read_extraOffset hextra hgroup n d
  rw [encodeExtra, decode_assembleTo hgroup n d hcode isV5 hclass,
    decodeAs_extraTransfer (extraKind_of_bits isV5 hextra hcoded (hbit 0) hkind), hoffset,
    transferMode_of_bits hmode (hbit 4) (hbit 3) (hbit 1), first_assembleTo hgroup n d hcode,
    second_assembleTo hgroup n d hcode]

/-! ## Instructions that have a word -/

/-- Whether some word that is always executed encodes the instruction. -/
def Encodable (isV5 : Bool) (i : Instruction) : Prop :=
  ∃ word, condition word = 14 ∧ decode isV5 word = i

namespace Encodable

variable (isV5 : Bool)

theorem alu {op : AluOp} {setFlags : Bool} (n d : Register) {operand : Operand}
    (hset : (op.writes || setFlags) = true) (hfits : operand.Fits) :
    Encodable isV5 (.alu op setFlags n d operand) :=
  ⟨encodeAlu op setFlags n d operand, condition_assembleTo (aluGroup_lt _ _ _) n d hfits.code_lt,
    decode_encodeAlu isV5 n d hset hfits⟩

theorem multiply (op : MulOp) (setFlags : Bool) (d n s m : Register) :
    Encodable isV5 (.multiply op setFlags d n s m) :=
  ⟨encodeMultiply op setFlags d n s m,
    condition_assembleTo (multiplyGroup_lt _ _) d n (multiplyCode_lt s m),
    decode_encodeMultiply isV5 op setFlags d n s m⟩

theorem blockTransfer (n : Register) (list : UInt16) (statusBit : Bool) (mode : BlockMode) :
    Encodable isV5 (.blockTransfer n list statusBit mode) :=
  ⟨encodeBlock n list statusBit mode, condition_assemble (groupOf_lt _) n list.toNat_lt,
    decode_encodeBlock isV5 n list statusBit mode⟩

theorem transfer (n d : Register) {offset : Offset} {mode : TransferMode}
    (hmode : (mode.pre || mode.writeback) = true) (hfits : TransferFits mode.kind offset)
    (hkind : mode.kind.isPlain = true ∨ mode.kind.extraCode ≠ 0) :
    Encodable isV5 (.transfer n d offset mode) := by
  cases hplain : mode.kind.isPlain with
  | true =>
    exact ⟨encodePlain n d offset mode,
      condition_assembleTo (groupOf_lt _) n d (hfits.plainCode_lt hplain),
      decode_encodePlain isV5 n d hplain hmode hfits⟩
  | false =>
    have hcoded : mode.kind.extraCode ≠ 0 := hkind.resolve_left (by simp [hplain])
    exact ⟨encodeExtra n d offset mode,
      condition_assembleTo (groupOf_lt _) n d (hfits.extraCode_lt hplain),
      decode_encodeExtra isV5 n d hplain hcoded hmode hfits⟩

end Encodable

end Handheld.Arm
