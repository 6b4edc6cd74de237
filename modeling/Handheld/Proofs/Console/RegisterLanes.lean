import Mathlib
import Handheld.Proofs.Console.MemoryMap
import Handheld.Proofs.Console.Registers

/-!
# Accesses to device registers by their bytes

An access of some width is spread over the registers that it touches. Its bytes can be written one
by one, and in halves, with the same result, since each register takes the bytes of an access as
they come. What a write does not cover it leaves alone.

The registers that forget are the exception on both counts: they take what an access does not
cover for zero, so that of several writes only the last one counts.
-/

namespace Handheld.Console

open IoRegister Word Address

/-! ## Accesses without the log -/

/-- A processor and the devices, which is what a write to a register can change. -/
abbrev Parts := CpuState × System

/-- The parts of a board. -/
def parts (b : Board System) : Parts := (b.cpu, b.system)

/-- What a write to a register does to the processor that makes it. -/
def processorEffect (l : Lanes) (cpu : CpuState) : IoRegister → CpuState
  | .haltControl =>
    match System.powerRequest l.raw with
    | .none => cpu
    | .halt | .sleep _ => { cpu with isHalted := true }
  | _ => cpu

/-- What a write to a register does. -/
def registerEffect (p : Processor) (l : Lanes) (r : IoRegister) (x : Parts) : Parts :=
  (processorEffect l x.1 r, (x.2.writeIo p l {} r).1)

/-- What an access does, as `writeIoFrom` does it. -/
def ioEffect (p : Processor) : (left skip : Nat) → (a value mask : UInt32) → Parts → Parts
  | 0, _, _, _, _, x => x
  | left + 1, skip + 1, a, value, mask, x =>
    ioEffect p left skip (a + 1) (value >>> 8) (mask >>> 8) x
  | left + 1, 0, a, value, mask, x =>
    match writableAt? p a with
    | none => ioEffect p left 0 (a + 1) (value >>> 8) (mask >>> 8) x
    | some r =>
      ioEffect p left (r.bytesAfter a) (a + 1) (value >>> 8) (mask >>> 8)
        (registerEffect p (r.lanesAt a value mask) r x)

theorem ioEffect_none {p : Processor} {a : UInt32} (h : writableAt? p a = none) (left : Nat)
    (value mask : UInt32) (x : Parts) :
    ioEffect p (left + 1) 0 a value mask x =
      ioEffect p left 0 (a + 1) (value >>> 8) (mask >>> 8) x := by
  rw [ioEffect, h]

theorem ioEffect_some {p : Processor} {a : UInt32} {r : IoRegister} (h : writableAt? p a = some r)
    (left : Nat) (value mask : UInt32) (x : Parts) :
    ioEffect p (left + 1) 0 a value mask x =
      ioEffect p left (r.bytesAfter a) (a + 1) (value >>> 8) (mask >>> 8)
        (registerEffect p (r.lanesAt a value mask) r x) := by
  rw [ioEffect, h]

/-- The log has no part in what a write does. -/
theorem System.writeIo_log (s : System) (p : Processor) (l : Lanes) (log log' : Log)
    (r : IoRegister) : (s.writeIo p l log r).1 = (s.writeIo p l log' r).1 := by
  cases r with
  | timerControl i =>
    show (s.writeTimerControl p i l log).1 = (s.writeTimerControl p i l log').1
    rw [System.queue_writeTimerControl, System.queue_writeTimerControl]
  | _ => rfl

theorem parts_writeRegister (p : Processor) (l : Lanes) (r : IoRegister) (b : Board System) :
    parts (writeRegister p l r b).2 = registerEffect p l r (parts b) := by
  refine Prod.ext ?_ ((Monitor.system_writeRegister p l r b).trans (System.writeIo_log ..))
  cases r with
  | haltControl =>
    show (writeRegister p l .haltControl b).2.cpu = processorEffect l b.cpu .haltControl
    unfold writeRegister processorEffect
    dsimp only
    cases System.powerRequest l.raw <;> rfl
  | _ => rfl

theorem parts_writeIoFrom (p : Processor) (left skip : Nat) (a value mask : UInt32)
    (b : Board System) :
    parts (writeIoFrom p left skip a value mask b).2 =
      ioEffect p left skip a value mask (parts b) := by
  induction left generalizing skip a value mask b with
  | zero => rfl
  | succ left ih =>
    cases skip with
    | succ skip => exact ih skip _ _ _ _
    | zero =>
      unfold writeIoFrom ioEffect
      cases writableAt? p a with
      | none => exact ih 0 _ _ _ _
      | some r =>
        refine (ih (r.bytesAfter a) _ _ _ (writeRegister p (r.lanesAt a value mask) r b).2).trans ?_
        rw [parts_writeRegister]

/-! ## The lanes of an access -/

section Lanes

variable {p : Processor} {a value mask : UInt32} {r : IoRegister}

theorem toNat_shift (h : writableAt? p a = some r) :
    (r.offset a * 8).toNat = 8 * (a.toNat - r.start) ∧ a.toNat - r.start < 4 := by
  obtain ⟨hr, -, hlow, hhigh⟩ := writableAt?_eq_some_iff.mp h
  exact toNat_shift_of_covers hr hlow hhigh

/-- An access covers as many bits of a register as its mask has, from its address on. -/
theorem covers_lanesAt (h : writableAt? p a = some r) {n : Nat} (hmask : mask.toNat = 2 ^ n - 1)
    {i : Nat} (hi : i < 32) :
    (r.lanesAt a value mask).covers i =
      decide (8 * (a.toNat - r.start) ≤ i ∧ i - 8 * (a.toNat - r.start) < n) := by
  obtain ⟨hshift, hplace⟩ := toNat_shift h
  show (mask <<< (r.offset a * 8)).toNat.testBit i = _
  rw [testBit_shiftLeft _ (by omega) hi, hshift, hmask, Nat.testBit_two_pow_sub_one,
    Bool.decide_and]

theorem value_lanesAt (h : writableAt? p a = some r) {i : Nat} (hi : i < 32) :
    (r.lanesAt a value mask).value.toNat.testBit i =
      (decide (8 * (a.toNat - r.start) ≤ i) &&
        value.toNat.testBit (i - 8 * (a.toNat - r.start))) := by
  obtain ⟨hshift, hplace⟩ := toNat_shift h
  show (value <<< (r.offset a * 8)).toNat.testBit i = _
  rw [testBit_shiftLeft _ (by omega) hi, hshift]

/-- The mask of the bytes that are left. -/
theorem mask_shiftRight {left : Nat} (hmask : mask.toNat = 2 ^ (8 * (left + 1)) - 1) :
    (mask >>> 8).toNat = 2 ^ (8 * left) - 1 := by
  refine Nat.eq_of_testBit_eq fun i => ?_
  rw [testBit_shiftRight_eight, hmask, Nat.testBit_two_pow_sub_one, Nat.testBit_two_pow_sub_one]
  exact decide_eq_decide.mpr (by omega)

end Lanes

/-! ## Byte by byte -/

section Bytes

variable {p : Processor} {a value mask : UInt32} {r : IoRegister} {x : Parts}

theorem registerEffect_congr {l l' : Lanes} (h : l.Alike (8 * r.size) l') :
    registerEffect p l r x = registerEffect p l' r x := by
  refine Prod.ext ?_ (congrArg Prod.fst (x.2.writeIo_congr p h {}))
  cases r with
  | haltControl =>
    have hpower : System.powerRequest l.raw = System.powerRequest l'.raw := by
      unfold System.powerRequest
      rw [h.raw_byte]
    unfold registerEffect processorEffect
    dsimp only
    rw [hpower]
  | _ => rfl

theorem regular_registerEffect (hx : x.2.Regular) (l : Lanes) (r : IoRegister) :
    (registerEffect p l r x).2.Regular :=
  System.invariant_regular.writeIo hx p l {} r

theorem regular_ioEffect (hx : x.2.Regular) (left skip : Nat) (a value mask : UInt32) :
    (ioEffect p left skip a value mask x).2.Regular := by
  induction left generalizing skip a value mask x with
  | zero => exact hx
  | succ left ih =>
    cases skip with
    | succ skip => exact ih hx skip _ _ _
    | zero =>
      unfold ioEffect
      cases writableAt? p a with
      | none => exact ih hx 0 _ _ _
      | some r => exact ih (regular_registerEffect hx _ r) _ _ _ _

/-- A write to the first byte of some and then one to the others are one write. -/
theorem registerEffect_next (hx : x.2.Regular) (hr : writableAt? p a = some r)
    (hnext : writableAt? p (a + 1) = some r) (ha : (a + 1).toNat = a.toNat + 1)
    (hkeeps : r.rewrittenBits = 0) {left : Nat}
    (hmask : mask.toNat = 2 ^ (8 * (left + 1)) - 1) :
    registerEffect p (r.lanesAt (a + 1) (value >>> 8) (mask >>> 8)) r
        (registerEffect p (r.lanesAt a value 0xFF) r x) =
      registerEffect p (r.lanesAt a value mask) r x := by
  have hbyte : (0xFF : UInt32).toNat = 2 ^ 8 - 1 := rfl
  have hrest := mask_shiftRight hmask
  obtain ⟨-, -, hlow, -⟩ := writableAt?_eq_some_iff.mp hr
  obtain ⟨-, -, -, hhigh⟩ := writableAt?_eq_some_iff.mp hnext
  have hsmall := r.size_le
  have hhalf : r.width = .half → a.toNat = r.start := by
    intro hwidth
    have hsize : r.size = 2 := by
      unfold IoRegister.size
      rw [hwidth]
      rfl
    omega
  have hwide : r.width ≠ .byte := by
    intro hwidth
    have hsize : r.size = 1 := by
      unfold IoRegister.size
      rw [hwidth]
      rfl
    omega
  have hjoins : (r.lanesAt a value mask).Joins (8 * r.size) (r.lanesAt a value 0xFF)
      (r.lanesAt (a + 1) (value >>> 8) (mask >>> 8)) := by
    refine ⟨fun i hi => ?_, fun i hi => ?_, fun i hi _ => ?_, fun i hi hcovers => ?_⟩
    · rw [covers_lanesAt hr hmask (by omega), covers_lanesAt hr hbyte (by omega),
        covers_lanesAt hnext hrest (by omega), ← Bool.decide_or]
      exact decide_eq_decide.mpr (by omega)
    · rw [covers_lanesAt hr hbyte (by omega), covers_lanesAt hnext hrest (by omega),
        decide_eq_true_iff, decide_eq_false_iff_not]
      omega
    · rw [value_lanesAt hr (by omega), value_lanesAt hr (by omega)]
    · rw [covers_lanesAt hnext hrest (by omega), decide_eq_true_iff] at hcovers
      have hplace : 8 + (i - 8 * ((a + 1).toNat - r.start)) = i - 8 * (a.toNat - r.start) := by
        omega
      rw [value_lanesAt hr (by omega), value_lanesAt hnext (by omega), testBit_shiftRight_eight,
        hplace, decide_eq_true (by omega), decide_eq_true (by omega)]
  refine Prod.ext ?_ (System.writeIo_writeIo hx hwide hkeeps hjoins (fun hwidth i hi hi' => ?_)
    (fun hwidth i hi => ?_) {} {} {})
  · cases r with
    | haltControl => exact absurd rfl hwide
    | _ => rfl
  · rw [covers_lanesAt hr hbyte (by omega), decide_eq_false_iff_not, hhalf hwidth]
    omega
  · rw [covers_lanesAt hnext hrest (by omega), decide_eq_false_iff_not, ha, hhalf hwidth]
    omega

/-- The first byte of an access can be written on its own, before the others. -/
theorem ioEffect_succ (hx : x.2.Regular) {left : Nat} (hleft : left < 4)
    (hmask : mask.toNat = 2 ^ (8 * (left + 1)) - 1) (ha : a.toNat + 1 < 2 ^ 32)
    (hkeeps : ∀ r, writableAt? p a = some r → r.rewrittenBits = 0) :
    ioEffect p (left + 1) 0 a value mask x =
      ioEffect p left 0 (a + 1) (value >>> 8) (mask >>> 8) (ioEffect p 1 0 a value 0xFF x) := by
  have hbyte : (0xFF : UInt32).toNat = 2 ^ 8 - 1 := rfl
  cases hr : writableAt? p a with
  | none => rw [ioEffect_none hr, ioEffect_none hr, ioEffect]
  | some r =>
    have hnext := toNat_add_one ha
    have hafter := bytesAfter_eq hr
    obtain ⟨hmem, hwritable, hlow, hhigh⟩ := writableAt?_eq_some_iff.mp hr
    have hfirst : ioEffect p 1 0 a value 0xFF x =
        registerEffect p (r.lanesAt a value 0xFF) r x := by
      rw [ioEffect_some hr, ioEffect]
    rw [ioEffect_some hr, hfirst]
    cases hlater : r.bytesAfter a with
    | zero =>
      -- The byte is the last one of the register.
      have hsmall := r.size_le
      have halike : (r.lanesAt a value mask).Alike (8 * r.size) (r.lanesAt a value 0xFF) := by
        refine fun i hi => ⟨?_, fun _ => ?_⟩
        · rw [covers_lanesAt hr hmask (by omega), covers_lanesAt hr hbyte (by omega)]
          exact decide_eq_decide.mpr (by omega)
        · rw [value_lanesAt hr (by omega), value_lanesAt hr (by omega)]
      rw [registerEffect_congr halike]
    | succ later =>
      cases left with
      | zero =>
        have hsame : mask = 0xFF := UInt32.toNat_inj.mp (hmask.trans hbyte.symm)
        rw [hsame, ioEffect, ioEffect]
      | succ left =>
        -- The next byte belongs to the same register.
        have hsame : writableAt? p (a + 1) = some r :=
          writableAt?_eq_some_iff.mpr ⟨hmem, hwritable, by omega, by omega⟩
        have hlater' : r.bytesAfter (a + 1) = later := by
          rw [bytesAfter_eq hsame]
          omega
        rw [ioEffect_some hsame, registerEffect_next hx hr hsame hnext (hkeeps r hr) hmask, hlater',
          ioEffect]

/-- An access does the same with all values that have the same bytes in its mask. -/
theorem ioEffect_congr {value' : UInt32} {left : Nat} (skip : Nat)
    (hmask : mask.toNat = 2 ^ (8 * left) - 1)
    (hvalue : ∀ i < 8 * left, value.toNat.testBit i = value'.toNat.testBit i) :
    ioEffect p left skip a value mask x = ioEffect p left skip a value' mask x := by
  induction left generalizing skip a value value' mask x with
  | zero => rfl
  | succ left ih =>
    have hrest : ∀ i < 8 * left,
        (value >>> 8).toNat.testBit i = (value' >>> 8).toNat.testBit i := by
      intro i hi
      rw [testBit_shiftRight_eight, testBit_shiftRight_eight, hvalue _ (by omega)]
    cases skip with
    | succ skip => exact ih skip (mask_shiftRight hmask) hrest
    | zero =>
      cases hr : writableAt? p a with
      | none =>
        rw [ioEffect_none hr, ioEffect_none hr]
        exact ih 0 (mask_shiftRight hmask) hrest
      | some r =>
        have hsmall := r.size_le
        have halike : (r.lanesAt a value mask).Alike (8 * r.size) (r.lanesAt a value' mask) := by
          refine fun i hi => ⟨rfl, fun hcovers => ?_⟩
          rw [covers_lanesAt hr hmask (by omega), decide_eq_true_iff] at hcovers
          rw [value_lanesAt hr (by omega), value_lanesAt hr (by omega), hvalue _ hcovers.2]
        rw [ioEffect_some hr, ioEffect_some hr, registerEffect_congr halike]
        exact ih _ (mask_shiftRight hmask) hrest

/-- The bytes of a value written one after the other, the lowest first. -/
def bytesEffect (p : Processor) : (count : Nat) → (a value : UInt32) → Parts → Parts
  | 0, _, _, x => x
  | count + 1, a, value, x =>
    bytesEffect p count (a + 1) (value >>> 8) (ioEffect p 1 0 a value 0xFF x)

/-- Where no register forgets an access is the sequence of its bytes. -/
theorem ioEffect_bytes (hx : x.2.Regular) {left : Nat} (hleft : left ≤ 4)
    (hmask : mask.toNat = 2 ^ (8 * left) - 1) (ha : a.toNat + left < 2 ^ 32)
    (hkeeps : ∀ b : UInt32, a.toNat ≤ b.toNat → b.toNat < a.toNat + left →
      ∀ r, writableAt? p b = some r → r.rewrittenBits = 0) :
    ioEffect p left 0 a value mask x = bytesEffect p left a value x := by
  induction left generalizing a value mask x with
  | zero => rfl
  | succ left ih =>
    have hnext : (a + 1).toNat = a.toNat + 1 := toNat_add_one (by omega)
    rw [ioEffect_succ hx (by omega) hmask (by omega) (hkeeps a le_rfl (by omega)), bytesEffect]
    exact ih (regular_ioEffect hx 1 0 a value 0xFF) (by omega) (mask_shiftRight hmask) (by omega)
      fun b hlow hhigh => hkeeps b (by omega) (by omega)

/-! ## Registers that forget -/

/-- Bytes that were written together with an earlier one are not written again. -/
theorem ioEffect_of_le_skip {left skip : Nat} (h : left ≤ skip) :
    ioEffect p left skip a value mask x = x := by
  induction left generalizing skip a value mask with
  | zero => rfl
  | succ left ih =>
    cases skip with
    | zero => omega
    | succ skip => exact ih (by omega)

/-- An access within one register is one write to it. -/
theorem ioEffect_within (hr : writableAt? p a = some r) {left : Nat}
    (hleft : a.toNat + (left + 1) ≤ r.start + r.size) :
    ioEffect p (left + 1) 0 a value mask x = registerEffect p (r.lanesAt a value mask) r x := by
  rw [ioEffect_some hr, ioEffect_of_le_skip]
  rw [bytesAfter_eq hr]
  omega

theorem registerEffect_overwrites (hx : x.2.Regular) (hforgets : r.rewrittenBits ≠ 0)
    (l₁ l₂ : Lanes) :
    registerEffect p l₂ r (registerEffect p l₁ r x) = registerEffect p l₂ r x := by
  refine Prod.ext ?_ (System.writeIo_overwrites hx hforgets {} {} {})
  cases r with
  | haltControl => exact absurd rfl hforgets
  | _ => rfl

theorem registerEffect_of_forgets {l l' : Lanes} (hforgets : r.rewrittenBits ≠ 0)
    (h : l.raw &&& r.rewrittenBits = l'.raw &&& r.rewrittenBits) :
    registerEffect p l r x = registerEffect p l' r x := by
  refine Prod.ext ?_ (congrArg Prod.fst (System.writeIo_of_forgets x.2 p hforgets h {}))
  cases r with
  | haltControl => exact absurd rfl hforgets
  | _ => rfl

/-- A write that does not reach the low byte of a register that forgets stores zeros. -/
theorem raw_and_rewrittenBits (hr : writableAt? p a = some r) (hlater : r.start < a.toNat) :
    (r.lanesAt a value mask).raw &&& r.rewrittenBits = 0 := by
  obtain ⟨hshift, hplace⟩ := toNat_shift hr
  refine ext_testBit fun i hi => ?_
  have hraw : i < 8 → (r.lanesAt a value mask).raw.toNat.testBit i = false := by
    intro hlow
    have hcovers : (r.lanesAt a value mask).covers i = false := by
      show (mask <<< (r.offset a * 8)).toNat.testBit i = false
      rw [testBit_shiftLeft _ (by omega) hi, hshift, decide_eq_false (by omega), Bool.false_and]
    rw [Lanes.testBit_raw, hcovers, Bool.false_and]
  have hsmall : r.rewrittenBits.toNat < 2 ^ 8 := by
    unfold rewrittenBits
    split <;> decide
  rw [UInt32.toNat_and, Nat.testBit_and]
  by_cases hlow : i < 8
  · rw [hraw hlow, Bool.false_and]
    exact (Nat.zero_testBit i).symm
  · have hbeyond : r.rewrittenBits.toNat.testBit i = false :=
      Nat.testBit_lt_two_pow (hsmall.trans_le (Nat.pow_le_pow_right (by decide) (by omega)))
    rw [hbeyond, Bool.and_false]
    exact (Nat.zero_testBit i).symm

/-! ## What an access leaves alone -/

/-- An access leaves the bits alone whose bytes it does not cover, unless they belong to a register
that forgets and that it touches elsewhere. The first `skip` bytes were written before. -/
theorem testBit_storedBits_ioEffect {left skip : Nat} (hmask : mask.toNat = 2 ^ (8 * left) - 1)
    (ha : a.toNat + left < 2 ^ 32) (hr : r ∈ all p) {i : Nat} (hi : i < 8 * r.size)
    (hout : r.start + i / 8 < a.toNat + skip ∨ a.toNat + left ≤ r.start + i / 8) :
    ((ioEffect p left skip a value mask x).2.storedBits p r).testBit i =
      if (skip < left ∧ r.start < a.toNat + left ∧ a.toNat + skip < r.start + r.size) ∧
          r.rewrittenBits ≠ 0 then false
      else (x.2.storedBits p r).testBit i := by
  -- The access is followed byte by byte; `skip` counts the bytes of a register behind its first.
  induction left generalizing skip a value mask x with
  | zero => rw [ioEffect, if_neg (by omega)]
  | succ left ih =>
    have hnext : (a + 1).toNat = a.toNat + 1 := toNat_add_one (by omega)
    have hrest := mask_shiftRight hmask
    cases skip with
    | succ skip =>
      rw [ioEffect, ih hrest (by omega) (by omega)]
      refine if_congr (and_congr_left fun _ => ?_) rfl rfl
      rw [hnext]
      omega
    | zero =>
      cases hfirst : writableAt? p a with
      | none =>
        rw [ioEffect_none hfirst, ih hrest (by omega) (by omega)]
        -- A register that forgets takes writes, so it does not cover this address.
        have hnot : r.rewrittenBits ≠ 0 → ¬ (r.start ≤ a.toNat ∧ a.toNat < r.start + r.size) := by
          intro hforgets hcovers
          have hwritable : r.isWritable = true := by
            cases r <;> first | rfl | exact absurd rfl hforgets
          have hfound := writableAt?_eq_some_iff.mpr ⟨hr, hwritable, hcovers⟩
          rw [hfirst] at hfound
          cases hfound
        refine if_congr (and_congr_left fun hforgets => ?_) rfl rfl
        have hapart := hnot hforgets
        rw [hnext]
        omega
      | some first =>
        obtain ⟨hmem, -, hlow, hhigh⟩ := writableAt?_eq_some_iff.mp hfirst
        have hafter := bytesAfter_eq hfirst
        have hpositive : 0 < r.size := by
          obtain ⟨k, -, hsize⟩ := r.size_eq_pow
          rw [hsize]
          exact Nat.two_pow_pos k
        rw [ioEffect_some hfirst]
        rcases apart r hr first hmem with rfl | hapart
        · -- The bits belong to the register that is written first.
          have huncovered : (r.lanesAt a value mask).covers i = false := by
            have hsmall := r.size_le
            rw [covers_lanesAt hfirst hmask (by omega), decide_eq_false_iff_not]
            omega
          have hstored := System.testBit_storedBits_writeIo x.2 p {} hi huncovered
          rw [ih hrest (by omega) (by omega), if_neg (by omega)]
          refine hstored.trans (if_congr ?_ rfl rfl)
          exact ⟨fun hforgets => ⟨by omega, hforgets⟩, fun h => h.2⟩
        · have hne : r ≠ first := by
            rintro rfl
            omega
          have hstored := System.storedBits_writeIo_of_ne x.2 p (first.lanesAt a value mask) {} hne
          rw [ih hrest (by omega) (by omega)]
          refine if_congr (and_congr_left fun _ => ?_) rfl (congrArg (Nat.testBit · i) hstored)
          rw [hnext]
          omega

end Bytes

end Handheld.Console
