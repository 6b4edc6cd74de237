import Handheld.Checked.Arithmetic
import Handheld.Proofs.Cpu.ExactProducts

/-!
# Operators with checked ranges

When an operator has a result, and what it is: that of the operator which wraps around. Arithmetic
and the shifter follow, function by function. All that they calculate is exact whatever their
operands, so the checks may be taken away.
-/

namespace Handheld

open Word

/-! ## Operators -/

namespace Checked

variable {α β : Type}

@[simp] theorem ok_bind (a : α) (f : α → Checked β) : (Except.ok a >>= f) = f a := rfl

@[simp] theorem pure_eq (a : α) : (pure a : Checked α) = .ok a := rfl

/-- What comes to a result has come to one in each of its parts. -/
theorem bind_eq_ok {x : Checked α} {f : α → Checked β} {b : β} (h : (x >>= f) = .ok b) :
    ∃ a, x = .ok a ∧ f a = .ok b := by
  cases x with
  | error => cases h
  | ok a => exact ⟨a, rfl, h⟩

/-- A part that is followed by nothing that may fail is the one that does. -/
theorem bind_pure_eq_error_iff {x : Checked α} {f : α → β} {fault : Fault} :
    (x >>= fun a => pure (f a)) = .error fault ↔ x = .error fault := by
  cases x with
  | error => exact ⟨fun h => by cases h; rfl, fun h => by cases h; rfl⟩
  | ok => exact ⟨nofun, nofun⟩

theorem within_of {inRange : Prop} [Decidable inRange] (h : inRange) (result : α) :
    within inRange result = .ok result := if_pos h

theorem ite_ok (c : Prop) [Decidable c] (a b : α) :
    (if c then .ok a else .ok b : Checked α) = .ok (if c then a else b) :=
  (apply_ite Except.ok c a b).symm

theorem ite_eq_ok {c : Prop} [Decidable c] {x y : Checked α} {a b : α} (hx : x = .ok a)
    (hy : y = .ok b) : (if c then x else y) = .ok (if c then a else b) := by
  rw [hx, hy, ite_ok]

-- An operator has the result that wraps around if the exact one is in range.
section
variable {a b : UInt32}

theorem add_eq (h : a.toNat + b.toNat < 2 ^ 32) : add a b = .ok (a + b) := within_of h _

theorem add_past (h : 2 ^ 32 ≤ a.toNat + b.toNat) : add a b = .error .outOfRange :=
  if_neg (Nat.not_lt.mpr h)

theorem sub_eq (h : b ≤ a) : sub a b = .ok (a - b) := within_of h _

theorem mul_eq (h : a.toNat * b.toNat < 2 ^ 32) : mul a b = .ok (a * b) := within_of h _

end

theorem addLong_eq {a b : UInt64} (h : a.toNat + b.toNat < 2 ^ 64) : addLong a b = .ok (a + b) :=
  within_of h _

section
variable {a b : Int32}

theorem addSigned_eq (hlow : -2 ^ 31 ≤ a.toInt + b.toInt) (hhigh : a.toInt + b.toInt < 2 ^ 31) :
    addSigned a b = .ok (a + b) := within_of ⟨hlow, hhigh⟩ _

theorem mulSigned_eq (hlow : -2 ^ 31 ≤ a.toInt * b.toInt) (hhigh : a.toInt * b.toInt < 2 ^ 31) :
    mulSigned a b = .ok (a * b) := within_of ⟨hlow, hhigh⟩ _

theorem negSigned_eq (hlow : -2 ^ 31 ≤ -a.toInt) (hhigh : -a.toInt < 2 ^ 31) :
    negSigned a = .ok (-a) := within_of ⟨hlow, hhigh⟩ _

theorem shiftRightSigned_eq {amount : UInt32} (h : amount < 32) :
    shiftRightSigned a amount = .ok (a >>> amount.toInt32) := within_of h _

end

section
variable {a b : Int64}

theorem subSignedLong_eq (hlow : -2 ^ 63 ≤ a.toInt - b.toInt)
    (hhigh : a.toInt - b.toInt < 2 ^ 63) : subSignedLong a b = .ok (a - b) :=
  within_of ⟨hlow, hhigh⟩ _

theorem mulSignedLong_eq (hlow : -2 ^ 63 ≤ a.toInt * b.toInt)
    (hhigh : a.toInt * b.toInt < 2 ^ 63) : mulSignedLong a b = .ok (a * b) :=
  within_of ⟨hlow, hhigh⟩ _

end

section
variable [Word α] {x : α} {i : ℕ}

theorem shiftLeft_eq (h : i < width α) : shiftLeft x i = .ok (x <<< Word.ofNat i) := within_of h _

theorem shiftRight_eq (h : i < width α) : shiftRight x i = .ok (x >>> Word.ofNat i) :=
  within_of h _

theorem bit_eq (h : i < width α) : bit x i = .ok (Word.bit x i) := by
  rw [bit, shiftRight_eq h]
  rfl

theorem isBit_eq (h : i < width α) : isBit x i = .ok (Word.isBit x i) := by
  rw [isBit, shiftLeft_eq h]
  rfl

theorem setBit_eq (h : i < width α) (state : Bool) :
    setBit x i state = .ok (Word.setBit x i state) := by
  rw [setBit, shiftLeft_eq h, shiftLeft_eq h]
  rfl

end

/-- A bit of a word at a position that is written as a number. -/
theorem isBit_word (x : UInt32) {i : ℕ} (h : i < 32) : isBit x i = .ok (Word.isBit x i) :=
  isBit_eq h

theorem isBit_short (x : UInt16) {i : ℕ} (h : i < 16) : isBit x i = .ok (Word.isBit x i) :=
  isBit_eq h

theorem distance_eq {i j : ℕ} (h : j ≤ i) : distance i j = .ok (i - j) := within_of h _

theorem index_eq {size i : ℕ} [NeZero size] (h : i < size) :
    index size i = .ok (Fin.ofNat size i) := by
  rw [index, dif_pos h, Except.ok.injEq, Fin.ext_iff, Fin.val_ofNat, Nat.mod_eq_of_lt h]

section
variable (x : UInt32) {amount : UInt32}

theorem shiftLeft_word (h : amount < 32) : shiftLeft x amount.toNat = .ok (x <<< amount) := by
  rw [shiftLeft_eq (show amount.toNat < width UInt32 from UInt32.lt_iff_toNat_lt.mp h)]
  show Except.ok (x <<< UInt32.ofNat amount.toNat) = _
  rw [UInt32.ofNat_toNat]

theorem shiftRight_word (h : amount < 32) : shiftRight x amount.toNat = .ok (x >>> amount) := by
  rw [shiftRight_eq (show amount.toNat < width UInt32 from UInt32.lt_iff_toNat_lt.mp h)]
  show Except.ok (x >>> UInt32.ofNat amount.toNat) = _
  rw [UInt32.ofNat_toNat]

end

theorem toNat_pos {amount : UInt32} (h : amount ≠ 0) : 0 < amount.toNat :=
  Nat.pos_of_ne_zero fun hzero => h (UInt32.toNat_inj.mp hzero)

end Checked

/-! ## The shifter -/

namespace Shifter

section
variable (value : UInt32) {amount : UInt32}

theorem carryLeft_eq (hpos : amount ≠ 0) (h : amount < 32) :
    carryLeft value amount = .ok (isBit value (32 - amount.toNat)) := by
  have hle : amount ≤ 32 := UInt32.le_of_lt h
  have hsub : (32 - amount).toNat = 32 - amount.toNat := UInt32.toNat_sub_of_le _ _ hle
  have hamount := Checked.toNat_pos hpos
  rw [carryLeft, Checked.sub_eq hle]
  show Checked.isBit value (32 - amount).toNat = _
  rw [Checked.isBit_word value (by omega), hsub]

theorem carryRight_eq (hpos : amount ≠ 0) (h : amount < 32) :
    carryRight value amount = .ok (isBit value (amount.toNat - 1)) := by
  have hone : (1 : UInt32) ≤ amount := UInt32.le_iff_toNat_le.mpr (Checked.toNat_pos hpos)
  have hsub : (amount - 1).toNat = amount.toNat - 1 := UInt32.toNat_sub_of_le _ _ hone
  have hamount : amount.toNat < 32 := UInt32.lt_iff_toNat_lt.mp h
  rw [carryRight, Checked.sub_eq hone]
  show Checked.isBit value (amount - 1).toNat = _
  rw [Checked.isBit_word value (by omega), hsub]

end

variable (value amount : UInt32) (carry : Bool)

theorem lslChecked_eq : lslChecked value amount carry = .ok (lsl value amount carry) := by
  unfold lslChecked lsl
  split_ifs with hzero hlt
  · rfl
  · rw [Checked.shiftLeft_word value hlt, carryLeft_eq value hzero hlt]
    rfl
  · rfl
  · rfl

theorem lsrChecked_eq : lsrChecked value amount carry = .ok (lsr value amount carry) := by
  unfold lsrChecked lsr
  split_ifs with hzero hlt
  · rfl
  · rw [Checked.shiftRight_word value hlt, carryRight_eq value hzero hlt]
    rfl
  · rfl
  · rfl

theorem asrChecked_eq : asrChecked value amount carry = .ok (asr value amount carry) := by
  unfold asrChecked asr
  split_ifs with hzero hlt
  · rfl
  · rw [Checked.shiftRightSigned_eq hlt, carryRight_eq value hzero hlt]
    rfl
  · rfl

theorem rorChecked_eq : rorChecked value amount carry = .ok (ror value amount carry) := by
  unfold rorChecked ror
  split_ifs with hzero hrest
  · rfl
  · rfl
  · have hlt : amount &&& 31 < 32 := by
      rw [UInt32.lt_iff_toNat_lt, UInt32.toNat_and]
      exact Nat.lt_succ_of_le Nat.and_le_right
    rw [carryRight_eq value hrest hlt]
    rfl

theorem rrxChecked_eq : rrxChecked value carry = .ok (rrx value carry) := rfl

@[simp] theorem byImmediateChecked_eq (kind : ShiftKind) :
    byImmediateChecked kind value amount carry = .ok (byImmediate kind value amount carry) := by
  cases kind with
  | lsl => exact lslChecked_eq _ _ _
  | lsr => exact lsrChecked_eq _ _ _
  | asr => exact asrChecked_eq _ _ _
  | ror =>
    unfold byImmediateChecked byImmediate
    dsimp only
    split_ifs
    · exact rrxChecked_eq _ _
    · exact rorChecked_eq _ _ _

@[simp] theorem byRegisterChecked_eq (kind : ShiftKind) :
    byRegisterChecked kind value amount carry = .ok (byRegister kind value amount carry) := by
  cases kind with
  | lsl => exact lslChecked_eq _ _ _
  | lsr => exact lsrChecked_eq _ _ _
  | asr => exact asrChecked_eq _ _ _
  | ror => exact rorChecked_eq _ _ _

end Shifter

/-! ## Sums and products -/

namespace Arithmetic

variable (a b : UInt32)

/-- A sum of widened words does not run out of its long word. -/
theorem addLong_words :
    Checked.addLong a.toUInt64 b.toUInt64 = .ok (a.toUInt64 + b.toUInt64) := by
  have ha : a.toUInt64.toNat < 2 ^ 32 := by simpa using a.toNat_lt
  have hb : b.toUInt64.toNat < 2 ^ 32 := by simpa using b.toNat_lt
  exact Checked.addLong_eq (by omega)

/-- Nor does it with a carry on top. -/
theorem addLong_carry (carry : Bool) :
    Checked.addLong (a.toUInt64 + b.toUInt64) carry.toUInt64 =
      .ok (a.toUInt64 + b.toUInt64 + carry.toUInt64) := by
  have ha : a.toUInt64.toNat < 2 ^ 32 := by simpa using a.toNat_lt
  have hb : b.toUInt64.toNat < 2 ^ 32 := by simpa using b.toNat_lt
  have hcarry : carry.toUInt64.toNat ≤ 1 := by cases carry <;> decide
  have hsum : (a.toUInt64 + b.toUInt64).toNat = a.toUInt64.toNat + b.toUInt64.toNat := by
    rw [UInt64.toNat_add]
    exact Nat.mod_eq_of_lt (by omega)
  exact Checked.addLong_eq (by omega)

@[simp] theorem addChecked_eq : addChecked a b = .ok (add a b) := by
  rw [addChecked, addLong_words]
  rfl

@[simp] theorem addCarryChecked_eq (carry : Bool) :
    addCarryChecked a b carry = .ok (addCarry a b carry) := by
  rw [addCarryChecked, addLong_words, Checked.ok_bind, addLong_carry]
  rfl

@[simp] theorem subCarryChecked_eq (carry : Bool) :
    subCarryChecked a b carry = .ok (subCarry a b carry) := addCarryChecked_eq a (~~~b) carry

@[simp] theorem withSumChecked_eq (status : UInt32) (s : Sum32) :
    withSumChecked status s = .ok (withSum status s) := rfl

/-- A product of halves is a signed word. -/
@[simp] theorem halfProductChecked_eq (xTop yTop : Bool) :
    halfProductChecked (signedHalf a xTop) (signedHalf b yTop) =
      .ok (signedHalf a xTop * signedHalf b yTop) := by
  obtain ⟨hlow, hhigh⟩ := mul_bounds (half_bounds a xTop) (half_bounds b yTop)
  have hproduct : (signedHalf a xTop).toInt32.toInt * (signedHalf b yTop).toInt32.toInt =
      half a xTop * half b yTop := by rw [toInt_signedHalf, toInt_signedHalf]
  rw [halfProductChecked, Checked.mulSigned_eq (by omega) (by omega), ← UInt32.toInt32_mul]
  rfl

/-- A product of a word and a half is a signed long word. -/
@[simp] theorem mixedProductChecked_eq (top : Bool) :
    mixedProductChecked a (signedHalf b top) = .ok (signedProduct a (signedHalf b top)) := by
  obtain ⟨hlow, hhigh⟩ := mul_bounds (fits_toInt32 a) (half_bounds b top)
  have hproduct : a.toInt32.toInt64.toInt * (signedHalf b top).toInt32.toInt64.toInt =
      a.toInt32.toInt * half b top := by
    rw [Int32.toInt_toInt64, Int32.toInt_toInt64, toInt_signedHalf]
  exact Checked.mulSignedLong_eq (by omega) (by omega)

end Arithmetic
end Handheld
