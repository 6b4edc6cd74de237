import Mathlib
import Handheld.Proofs.Console.Callbacks
import Handheld.Proofs.Word

/-!
# The checksum as a cyclic code

The register of the check is a shift register with feedback: one step is linear in exclusive or
(`checksumBit_xor`) and loses nothing (`checksumBit_ne_zero`). Taking in a byte is taking in its
bits, the least significant one first (`foldl_shiftIn`), and up to 16 bits act as if they had been
added to the register before it moves. From this follow the properties of a cyclic redundancy check:
a message behind which its checksum is put has the checksum zero, the checksum is linear, and it
tells apart messages that differ in a burst of 16 bits. Main statement:
`Firmware.cyclic_redundancy`.
-/

namespace Handheld.Console.Firmware

open Word

/-! ## One step of the register -/

theorem testBit_xor16 (a b : UInt16) (i : ℕ) :
    (a ^^^ b).toNat.testBit i = (a.toNat.testBit i ^^ b.toNat.testBit i) := by
  rw [UInt16.toNat_xor, Nat.testBit_xor]

theorem testBit_shiftRight_one (crc : UInt16) (i : ℕ) :
    (crc >>> 1).toNat.testBit i = crc.toNat.testBit (1 + i) := by
  rw [UInt16.toNat_shiftRight]
  exact Nat.testBit_shiftRight crc.toNat

theorem testBit_shiftLeft_one (crc : UInt16) {i : ℕ} (hi : i < 16) :
    (crc <<< 1).toNat.testBit i = (decide (1 ≤ i) && crc.toNat.testBit (i - 1)) := by
  have hamount : (1 : UInt16).toNat % 16 = 1 := rfl
  rw [UInt16.toNat_shiftLeft, hamount, Nat.testBit_mod_two_pow, Nat.testBit_shiftLeft]
  simp [hi]

/-- The step without the branch: what fell out decides whether the polynomial is added. -/
theorem checksumBit_eq (crc : UInt16) :
    checksumBit crc = (crc >>> 1) ^^^ (if crc.toNat.testBit 0 then 0xA001 else 0) := by
  unfold checksumBit
  rw [isBit16_eq_testBit crc (by decide)]
  cases crc.toNat.testBit 0 <;> simp

theorem checksumBit_xor (a b : UInt16) :
    checksumBit (a ^^^ b) = checksumBit a ^^^ checksumBit b := by
  have hpolynomial : (if (a.toNat.testBit 0 ^^ b.toNat.testBit 0) then (0xA001 : UInt16) else 0) =
      (if a.toNat.testBit 0 then 0xA001 else 0) ^^^ (if b.toNat.testBit 0 then 0xA001 else 0) := by
    cases a.toNat.testBit 0 <;> cases b.toNat.testBit 0 <;> rfl
  simp only [checksumBit_eq]
  rw [testBit_xor16, hpolynomial, UInt16.shiftRight_xor]
  ac_rfl

/-- The polynomial reaches the top of the register, so a one that fell out is seen there. -/
theorem checksumBit_ne_zero {crc : UInt16} (h : crc ≠ 0) : checksumBit crc ≠ 0 := by
  intro hzero
  apply h
  have hbits : ∀ i, (checksumBit crc).toNat.testBit i = false := by
    intro i
    rw [hzero]
    exact Nat.zero_testBit i
  have htop : (crc >>> 1).toNat.testBit 15 = false := by
    rw [testBit_shiftRight_one]
    exact Nat.testBit_lt_two_pow crc.toNat_lt
  have hlow : crc.toNat.testBit 0 = false := by
    have hbit := hbits 15
    rw [checksumBit_eq, testBit_xor16, htop] at hbit
    cases hfell : crc.toNat.testBit 0 with
    | false => rfl
    | true =>
      rw [hfell] at hbit
      exact absurd hbit (by decide)
  apply ext_testBit16
  intro i hi
  rcases Nat.eq_zero_or_pos i with rfl | hpos
  · exact hlow
  · -- No polynomial was added, so the other bits are still there, one place lower.
    have hbit := hbits (i - 1)
    rw [checksumBit_eq, hlow, if_neg Bool.false_ne_true, UInt16.xor_zero, testBit_shiftRight_one,
      Nat.add_sub_cancel' hpos] at hbit
    rw [hbit]
    exact (Nat.zero_testBit i).symm

/-- A register with a free bit at its top is moved up and down again. -/
theorem checksumBit_shiftLeft {crc : UInt16} (h : crc.toNat.testBit 15 = false) :
    checksumBit (crc <<< 1) = crc := by
  have hlow : (crc <<< 1).toNat.testBit 0 = false := testBit_shiftLeft_one crc (by decide)
  rw [checksumBit_eq, hlow, if_neg Bool.false_ne_true, UInt16.xor_zero]
  apply ext_testBit16
  intro i hi
  rw [testBit_shiftRight_one]
  rcases Nat.lt_succ_iff_lt_or_eq.mp hi with hlt | rfl
  · rw [testBit_shiftLeft_one crc (by omega), Nat.add_sub_cancel_left]
    simp
  · rw [h]
    exact Nat.testBit_lt_two_pow (crc <<< 1).toNat_lt

/-! ## Several steps -/

theorem checksumBits_zero (n : ℕ) : checksumBits n 0 = 0 := by
  induction n with
  | zero => rfl
  | succ n ih => exact ih

theorem checksumBits_ne_zero (n : ℕ) {crc : UInt16} (h : crc ≠ 0) : checksumBits n crc ≠ 0 := by
  induction n generalizing crc with
  | zero => exact h
  | succ n ih => exact ih (checksumBit_ne_zero h)

/-! ## Bits of a message -/

/-- Bits of a byte, least significant first. -/
def byteBits (byte : UInt8) : List Bool := (List.range 8).map byte.toNat.testBit

/-- Bits of a message in the order in which the check takes them in. -/
def messageBits (bytes : List UInt8) : List Bool := bytes.flatMap byteBits

/-- Take one bit in: it is added at the low end, where the register is fed back. -/
def shiftIn (crc : UInt16) (bit : Bool) : UInt16 := checksumBit (crc ^^^ bit.toUInt16)

/-- The register that holds up to 16 bits, the first one lowest. -/
def wordOf : List Bool → UInt16
  | [] => 0
  | bit :: bits => bit.toUInt16 ^^^ (wordOf bits <<< 1)

theorem length_byteBits (byte : UInt8) : (byteBits byte).length = 8 := by simp [byteBits]

theorem testBit_wordOf (bits : List Bool) {i : ℕ} (hi : i < 16) :
    (wordOf bits).toNat.testBit i = bits.getD i false := by
  induction bits generalizing i with
  | nil => exact Nat.zero_testBit i
  | cons bit bits ih =>
    rw [wordOf, testBit_xor16, testBit_shiftLeft_one _ hi]
    cases i with
    | zero => cases bit <;> rfl
    | succ i =>
      have hsmall : bit.toUInt16.toNat < 2 ^ 1 := by cases bit <;> decide
      have hbeyond : bit.toUInt16.toNat.testBit (i + 1) = false :=
        Nat.testBit_lt_two_pow (hsmall.trans_le (Nat.pow_le_pow_right (by decide) (by omega)))
      rw [hbeyond, Nat.add_sub_cancel, ih (by omega)]
      simp

/-- A burst acts as if it had been added to the register at once. -/
theorem foldl_shiftIn {bits : List Bool} (h : bits.length ≤ 16) (crc : UInt16) :
    bits.foldl shiftIn crc = checksumBits bits.length (crc ^^^ wordOf bits) := by
  induction bits generalizing crc with
  | nil => simp [wordOf, checksumBits]
  | cons bit bits ih =>
    rw [List.length_cons] at h
    have htop : (wordOf bits).toNat.testBit 15 = false := by
      rw [testBit_wordOf bits (by decide), List.getD_eq_default]
      omega
    calc (bit :: bits).foldl shiftIn crc
        = checksumBits bits.length (shiftIn crc bit ^^^ wordOf bits) := ih (by omega) _
      _ = checksumBits bits.length (checksumBit (crc ^^^ bit.toUInt16 ^^^ wordOf bits <<< 1)) := by
          rw [checksumBit_xor, checksumBit_shiftLeft htop]
          rfl
      _ = checksumBits (bit :: bits).length (crc ^^^ wordOf (bit :: bits)) := by
          rw [UInt16.xor_assoc]
          rfl

theorem wordOf_byteBits (byte : UInt8) : wordOf (byteBits byte) = byte.toUInt16 := by
  apply ext_testBit16
  intro i hi
  rw [testBit_wordOf _ hi, UInt8.toNat_toUInt16, List.getD_eq_getElem?_getD]
  by_cases hlow : i < 8
  · simp [byteBits, hlow]
  · have hbeyond : byte.toNat.testBit i = false :=
      Nat.testBit_lt_two_pow (byte.toNat_lt.trans_le (Nat.pow_le_pow_right (by decide) (by omega)))
    simp [byteBits, hlow, hbeyond]

/-- The checksum takes in the bits of its bytes. -/
theorem checksum_eq_foldl (crc : UInt16) (bytes : List UInt8) :
    checksum crc bytes = (messageBits bytes).foldl shiftIn crc := by
  induction bytes generalizing crc with
  | nil => rfl
  | cons byte bytes ih =>
    have hbyte : (byteBits byte).foldl shiftIn crc = checksumByte crc byte := by
      rw [foldl_shiftIn (by rw [length_byteBits]; decide), length_byteBits, wordOf_byteBits]
      rfl
    rw [messageBits, List.flatMap_cons, List.foldl_append, hbyte]
    exact ih _

/-! ## Linearity -/

theorem foldl_shiftIn_xor {x y : List Bool} (h : x.length = y.length) (c d : UInt16) :
    (List.zipWith (· ^^ ·) x y).foldl shiftIn (c ^^^ d) =
      x.foldl shiftIn c ^^^ y.foldl shiftIn d := by
  induction x generalizing y c d with
  | nil =>
    obtain rfl := List.length_eq_zero_iff.mp h.symm
    rfl
  | cons a x ih =>
    obtain ⟨b, y, rfl⟩ := List.exists_cons_of_length_eq_add_one h.symm
    have hstep : shiftIn (c ^^^ d) (a ^^ b) = shiftIn c a ^^^ shiftIn d b := by
      have hbit : (a ^^ b).toUInt16 = a.toUInt16 ^^^ b.toUInt16 := by cases a <;> cases b <;> rfl
      unfold shiftIn
      rw [← checksumBit_xor, hbit]
      congr 1
      ac_rfl
    simp only [List.zipWith_cons_cons, List.foldl_cons]
    rw [hstep]
    exact ih (Nat.succ_inj.mp h) _ _

theorem messageBits_zipWith {x y : List UInt8} (h : x.length = y.length) :
    messageBits (List.zipWith (· ^^^ ·) x y) =
      List.zipWith (· ^^ ·) (messageBits x) (messageBits y) := by
  induction x generalizing y with
  | nil => rfl
  | cons a x ih =>
    obtain ⟨b, y, rfl⟩ := List.exists_cons_of_length_eq_add_one h.symm
    have hbyte : byteBits (a ^^^ b) = List.zipWith (· ^^ ·) (byteBits a) (byteBits b) := by
      simp [byteBits, List.zipWith_map, List.zipWith_self]
    have hrest := ih (Nat.succ_inj.mp h)
    unfold messageBits at hrest ⊢
    rw [List.zipWith_cons_cons, List.flatMap_cons, List.flatMap_cons, List.flatMap_cons,
      List.zipWith_append (by rw [length_byteBits, length_byteBits]), hbyte, hrest]

theorem length_messageBits (bytes : List UInt8) : (messageBits bytes).length = 8 * bytes.length := by
  induction bytes with
  | nil => rfl
  | cons byte bytes ih =>
    rw [messageBits, List.flatMap_cons, List.length_append, length_byteBits, List.length_cons]
    unfold messageBits at ih
    omega

/-- A message is given by its bits. -/
theorem messageBits_inj {x y : List UInt8} (hlength : x.length = y.length)
    (h : messageBits x = messageBits y) : x = y := by
  induction x generalizing y with
  | nil => exact (List.length_eq_zero_iff.mp hlength.symm).symm
  | cons a x ih =>
    obtain ⟨b, y, rfl⟩ := List.exists_cons_of_length_eq_add_one hlength.symm
    unfold messageBits at h
    rw [List.flatMap_cons, List.flatMap_cons] at h
    obtain ⟨hbyte, hrest⟩ := List.append_inj h (by rw [length_byteBits, length_byteBits])
    have hword : a.toUInt16 = b.toUInt16 := by
      rw [← wordOf_byteBits, ← wordOf_byteBits, hbyte]
    have hab : a = b := by
      rw [← UInt8.toNat_inj, ← UInt8.toNat_toUInt16, hword, UInt8.toNat_toUInt16]
    rw [hab, ih (Nat.succ_inj.mp hlength) hrest]

/-! ## Bursts -/

/-- Bits that are zero only move the register. -/
theorem foldl_shiftIn_zeros {bits : List Bool} (h : ∀ bit ∈ bits, bit = false) (crc : UInt16) :
    bits.foldl shiftIn crc = checksumBits bits.length crc := by
  induction bits generalizing crc with
  | nil => rfl
  | cons bit bits ih =>
    obtain ⟨rfl, hrest⟩ := List.forall_mem_cons.mp h
    have hstep : shiftIn crc false = checksumBit crc := congrArg checksumBit UInt16.xor_zero
    rw [List.foldl_cons, hstep]
    exact ih hrest _

/-- Ones that lie within 16 bits of each other leave a trace in an empty register. -/
theorem foldl_shiftIn_burst {bits : List Bool} {start : ℕ} (hsome : true ∈ bits)
    (hburst : ∀ i, bits[i]? = some true → start ≤ i ∧ i < start + 16) :
    bits.foldl shiftIn 0 ≠ 0 := by
  let burst := (bits.drop start).take 16
  let later := (bits.drop start).drop 16
  have hsplit : bits = bits.take start ++ (burst ++ later) := by
    rw [List.take_append_drop, List.take_append_drop]
  -- Outside the window there are no ones.
  have hbefore : ∀ bit ∈ bits.take start, bit = false := by
    intro bit hbit
    obtain ⟨i, hi, rfl⟩ := List.mem_take_iff_getElem.mp hbit
    by_contra hone
    have hwindow := hburst i
      (List.getElem?_eq_some_iff.mpr ⟨by omega, Bool.eq_true_of_not_eq_false hone⟩)
    omega
  have hlater : ∀ bit ∈ later, bit = false := by
    intro bit hbit
    obtain ⟨i, hi, rfl⟩ := List.mem_iff_getElem.mp hbit
    by_contra hone
    have hplace : bits[start + (16 + i)]? = some true := by
      rw [← List.getElem?_drop, ← List.getElem?_drop, List.getElem?_eq_getElem hi,
        Bool.eq_true_of_not_eq_false hone]
    have hwindow := hburst (start + (16 + i)) hplace
    omega
  have hlength : burst.length ≤ 16 := List.length_take_le 16 _
  have hword : wordOf burst ≠ 0 := by
    intro hzero
    obtain ⟨i, hi, hone⟩ := List.mem_iff_getElem.mp hsome
    obtain ⟨hlow, hhigh⟩ := hburst i (by rw [List.getElem?_eq_getElem hi, hone])
    have hbit := testBit_wordOf burst (i := i - start) (by omega)
    have hplace : burst[i - start]? = some true := by
      rw [List.getElem?_take_of_lt (by omega), List.getElem?_drop, Nat.add_sub_cancel' hlow,
        List.getElem?_eq_getElem hi, hone]
    rw [hzero, List.getD_eq_getElem?_getD, hplace] at hbit
    exact absurd hbit (by simp)
  have hstart : (bits.take start).foldl shiftIn 0 = 0 := by
    rw [foldl_shiftIn_zeros hbefore, checksumBits_zero]
  rw [hsplit, List.foldl_append, List.foldl_append, hstart, foldl_shiftIn hlength,
    UInt16.zero_xor, foldl_shiftIn_zeros hlater]
  apply checksumBits_ne_zero
  exact checksumBits_ne_zero _ hword

/-! ## The code -/

/-- A checksum as it is put behind a message, low byte first. -/
def trailer (crc : UInt16) : List UInt8 := [crc.toUInt8, (crc >>> 8).toUInt8]

theorem testBit_byte (n : ℕ) {i : ℕ} (hi : i < 8) : (n % 256).testBit i = n.testBit i := by
  have hbase : 256 = 2 ^ 8 := rfl
  rw [hbase, Nat.testBit_mod_two_pow]
  simp [hi]

theorem wordOf_trailer (crc : UInt16) : wordOf (messageBits (trailer crc)) = crc := by
  apply ext_testBit16
  intro i hi
  have hbits : messageBits (trailer crc) = byteBits crc.toUInt8 ++ byteBits (crc >>> 8).toUInt8 := by
    simp [messageBits, trailer]
  rw [testBit_wordOf _ hi, List.getD_eq_getElem?_getD, hbits]
  by_cases hlow : i < 8
  · rw [List.getElem?_append_left (by rwa [length_byteBits])]
    simp [byteBits, hlow, testBit_byte]
  · have hhigh : i - 8 < 8 := by omega
    have hplace : 8 + (i - 8) = i := by omega
    rw [List.getElem?_append_right (by rw [length_byteBits]; omega), length_byteBits]
    simp [byteBits, hhigh, hplace, testBit_byte]

theorem checksum_append (crc : UInt16) (x y : List UInt8) :
    checksum crc (x ++ y) = checksum (checksum crc x) y := List.foldl_append

/-- A register takes its own contents back to zero. -/
theorem checksum_trailer (crc : UInt16) : checksum crc (trailer crc) = 0 := by
  have hlength : (messageBits (trailer crc)).length = 16 := length_messageBits _
  rw [checksum_eq_foldl, foldl_shiftIn hlength.le, wordOf_trailer, UInt16.xor_self,
    checksumBits_zero]

theorem checksum_xor {x y : List UInt8} (h : x.length = y.length) (c d : UInt16) :
    checksum (c ^^^ d) (List.zipWith (· ^^^ ·) x y) = checksum c x ^^^ checksum d y := by
  have hbits : (messageBits x).length = (messageBits y).length := by
    rw [length_messageBits, length_messageBits, h]
  rw [checksum_eq_foldl, checksum_eq_foldl, checksum_eq_foldl, messageBits_zipWith h,
    foldl_shiftIn_xor hbits]

/-- Exclusive or marks the places where two lists differ. -/
theorem getElem?_zipWith_xor {x y : List Bool} (h : x.length = y.length) (i : ℕ) :
    (List.zipWith (· ^^ ·) x y)[i]? = some true ↔ x[i]? ≠ y[i]? := by
  by_cases hi : i < x.length
  · have hi' : i < y.length := h ▸ hi
    rw [List.getElem?_zipWith, List.getElem?_eq_getElem hi, List.getElem?_eq_getElem hi']
    simp
  · have hi' : ¬ i < y.length := h ▸ hi
    rw [List.getElem?_zipWith, List.getElem?_eq_none (by omega), List.getElem?_eq_none (by omega)]
    simp

/-- Messages of one length that differ, but only within 16 bits, have different checksums. -/
theorem checksum_ne_of_burst {x y : List UInt8} (hlength : x.length = y.length) (hne : x ≠ y)
    {start : ℕ} (hburst : ∀ i, (messageBits x)[i]? ≠ (messageBits y)[i]? →
      start ≤ i ∧ i < start + 16) (crc : UInt16) :
    checksum crc x ≠ checksum crc y := by
  intro heq
  have hbits : (messageBits x).length = (messageBits y).length := by
    rw [length_messageBits, length_messageBits, hlength]
  let difference := List.zipWith (· ^^ ·) (messageBits x) (messageBits y)
  -- By linearity the bits that differ are themselves a message with the checksum zero.
  have hzero : difference.foldl shiftIn 0 = 0 := by
    have hlinear := foldl_shiftIn_xor hbits crc crc
    rwa [← checksum_eq_foldl, ← checksum_eq_foldl, heq, UInt16.xor_self, UInt16.xor_self] at hlinear
  have hdiffers : ∀ i : ℕ,
      difference[i]? = some true ↔ (messageBits x)[i]? ≠ (messageBits y)[i]? :=
    getElem?_zipWith_xor hbits
  have hsome : true ∈ difference := by
    by_contra hnone
    apply hne
    apply messageBits_inj hlength
    apply List.ext_getElem?
    intro i
    by_contra hi
    exact hnone (List.mem_of_getElem? ((hdiffers i).mpr hi))
  exact foldl_shiftIn_burst hsome (fun i hi => hburst i ((hdiffers i).mp hi)) hzero

/-! ## The firmware call -/

/-- The bytes that a processor finds from an address on. -/
def storedBytes (p : Processor) (s : System) : (count : ℕ) → (address : UInt32) → List UInt8
  | 0, _ => []
  | count + 1, address =>
    (stored p s .byte address).toUInt8 :: storedBytes p s count (address + 1)

theorem toUInt8_byte (x : UInt32) : (x &&& 0xFF).toUInt8 = x.toUInt8 := by
  have hmask : (0xFF : UInt32).toNat = 2 ^ 8 - 1 := rfl
  rw [← UInt8.toNat_inj, UInt32.toNat_toUInt8, UInt32.toNat_toUInt8, UInt32.toNat_and, hmask,
    Nat.and_two_pow_sub_one_eq_mod, Nat.mod_mod]

/-- The loop over memory computes the checksum of the bytes that it reads. -/
theorem checksumFrom_fst (p : Processor) (count : ℕ) (address : UInt32) (crc : UInt16)
    (b : Board System) :
    (checksumFrom p count address crc b).1 =
      checksum crc (storedBytes p b.system count address) := by
  induction count generalizing address crc b with
  | zero => rfl
  | succ count ih =>
    have hbyte : (read p .byte address b).1.toUInt8 = (stored p b.system .byte address).toUInt8 := by
      unfold stored Width.truncate
      rw [toUInt8_byte]
      exact congrArg UInt32.toUInt8 ((looks_read p .byte address).value rfl)
    -- Reading leaves the devices as they are, so the later bytes are read from the same system.
    calc (checksumFrom p (count + 1) address crc b).1
        = (checksumFrom p count (address + 1) (checksumByte crc (read p .byte address b).1.toUInt8)
            (read p .byte address b).2).1 := rfl
      _ = checksum (checksumByte crc (stored p b.system .byte address).toUInt8)
            (storedBytes p b.system count (address + 1)) := by
          rw [ih, (looks_read p .byte address).system b, hbyte]
      _ = checksum crc (storedBytes p b.system (count + 1) address) := rfl

/-- The call leaves the checksum of r2 bytes from r1 on in r0, on top of the one that was there. -/
theorem cpu_serve_getCrc16 (p : Processor) (b : Board System) :
    (serve p .getCrc16 b).2.cpu = b.cpu.setReg 0
      (checksum (b.cpu.reg 0).toUInt16
        (storedBytes p b.system (b.cpu.reg 2).toNat (b.cpu.reg 1))).toUInt32 := by
  let read := checksumFrom p (b.cpu.reg 2).toNat (b.cpu.reg 1) (b.cpu.reg 0).toUInt16
  have hcpu : (read b).2.cpu = b.cpu := (looks_checksumFrom p _ _ _).cpu b
  have hvalue := checksumFrom_fst p (b.cpu.reg 2).toNat (b.cpu.reg 1) (b.cpu.reg 0).toUInt16 b
  show (read b).2.cpu.setReg 0 (read b).1.toUInt32 = _
  rw [hcpu, hvalue]

/-- **The checksum is a cyclic redundancy check.** The firmware call computes it over the bytes that
the processor finds in its memory map. Put behind its message, low byte first, it makes the checksum
of the whole zero, whatever the check started from. It is linear in the initial value and the
message. Two messages of one length that differ, but only within 16 consecutive bits, never have the
same checksum. -/
theorem cyclic_redundancy :
    (∀ (p : Processor) (b : Board System),
      (serve p .getCrc16 b).2.cpu = b.cpu.setReg 0
        (checksum (b.cpu.reg 0).toUInt16
          (storedBytes p b.system (b.cpu.reg 2).toNat (b.cpu.reg 1))).toUInt32) ∧
    (∀ (c : UInt16) (m : List UInt8), checksum c (m ++ trailer (checksum c m)) = 0) ∧
    (∀ (c d : UInt16) (x y : List UInt8), x.length = y.length →
      checksum (c ^^^ d) (List.zipWith (· ^^^ ·) x y) = checksum c x ^^^ checksum d y) ∧
    ∀ (x y : List UInt8) (start : ℕ), x.length = y.length → x ≠ y →
      (∀ i, (messageBits x)[i]? ≠ (messageBits y)[i]? → start ≤ i ∧ i < start + 16) →
      ∀ c, checksum c x ≠ checksum c y := by
  refine ⟨cpu_serve_getCrc16, ?_, ?_, ?_⟩
  · intro c m
    rw [checksum_append]
    exact checksum_trailer _
  · intro c d x y hlength
    exact checksum_xor hlength c d
  · intro x y start hlength hne hburst
    exact checksum_ne_of_burst hlength hne hburst

-- The check value of the standard, on top of 0xFFFF.
example : checksum 0xFFFF [0x31, 0x32, 0x33, 0x34, 0x35, 0x36, 0x37, 0x38, 0x39] = 0x4B37 := by
  cbv

/-- Two messages that differ in the bits 6 to 21, on both sides of a byte, are added up and told
apart. -/
theorem cyclic_redundancy_burst :
    let x : List UInt8 := [0x12, 0x34, 0x56, 0x78]
    let y : List UInt8 := [0xD2, 0xCB, 0x69, 0x78]
    checksum (0xFFFF ^^^ 0x1234) (List.zipWith (· ^^^ ·) x y) =
        checksum 0xFFFF x ^^^ checksum 0x1234 y ∧
      x ≠ y ∧ ∀ c, checksum c x ≠ checksum c y := by
  intro x y
  obtain ⟨-, -, hlinear, hbursts⟩ := cyclic_redundancy
  have hne : x ≠ y := by decide
  have hwindow : ∀ i, (messageBits x)[i]? ≠ (messageBits y)[i]? → 6 ≤ i ∧ i < 6 + 16 := by
    intro i hi
    have hlength : i < 32 := by
      by_contra hlong
      apply hi
      rw [List.getElem?_eq_none (by rw [length_messageBits]; exact Nat.not_lt.mp hlong),
        List.getElem?_eq_none (by rw [length_messageBits]; exact Nat.not_lt.mp hlong)]
    revert hi
    interval_cases i <;> decide
  exact ⟨hlinear _ _ x y rfl, hne, hbursts x y 6 rfl hne hwindow⟩

end Handheld.Console.Firmware
