import Mathlib
import Handheld.Proofs.Console.Invariants
import Handheld.Proofs.Console.Lanes
import Handheld.Proofs.Console.TimerRegisters

/-!
# Writes to one register

What a write to a device register stores: its lanes change the bits that they cover and no others,
of this register and of no other, `System.testBit_storedBits_writeIo`. Two writes, to some bytes
and then to others, are one write to all of them, `System.writeIo_writeIo`.

Three registers are different: the control registers of the math units and the master switch take
bytes that are not written for zero, so each write to one of them takes back the one before,
`System.writeIo_overwrites`.
-/

namespace Handheld.Console

open Word

namespace IoRegister

/-! ## Registers by address -/

/-- Where a register starts, as a number. -/
def start (r : IoRegister) : Nat := r.base.toNat

/-- How many bytes a register has. -/
def size (r : IoRegister) : Nat := r.width.bytes.toNat

theorem size_dvd_start {p : Processor} : ∀ r ∈ all p, r.size ∣ r.start := by
  cases p <;> decide +kernel

/-- No two registers of a processor share a byte. -/
theorem apart {p : Processor} :
    ∀ r ∈ all p, ∀ r' ∈ all p,
      r = r' ∨ r.start + r.size ≤ r'.start ∨ r'.start + r'.size ≤ r.start := by
  cases p <;> decide +kernel

theorem size_eq_pow (r : IoRegister) : ∃ k ≤ 2, r.size = 2 ^ k := by
  unfold size
  cases r.width with
  | byte => exact ⟨0, by decide, rfl⟩
  | half => exact ⟨1, by decide, rfl⟩
  | word => exact ⟨2, by decide, rfl⟩

theorem size_le (r : IoRegister) : r.size ≤ 4 := by
  unfold size
  cases r.width <;> decide

theorem covers_iff {p : Processor} {r : IoRegister} (hr : r ∈ all p) (a : UInt32) :
    r.covers a = true ↔ r.start ≤ a.toNat ∧ a.toNat < r.start + r.size := by
  obtain ⟨k, -, hsize⟩ := size_eq_pow r
  obtain ⟨n, hstart⟩ := size_dvd_start r hr
  have hdown := Address.toNat_alignDown a hsize
  unfold covers
  rw [beq_iff_eq, ← UInt32.toNat_inj, hdown, ← hsize]
  show a.toNat / r.size * r.size = r.start ↔ _
  have hpositive : 0 < r.size := by
    rw [hsize]
    exact Nat.two_pow_pos k
  rw [hstart, Nat.mul_comm r.size n]
  constructor
  · intro h
    have hn : a.toNat / r.size = n := Nat.eq_of_mul_eq_mul_right hpositive h
    rw [← hn]
    exact ⟨Nat.div_mul_le_self _ _, Nat.lt_div_mul_add hpositive⟩
  · rintro ⟨hlow, hhigh⟩
    rw [Nat.div_eq_of_lt_le hlow (by rwa [Nat.succ_mul])]

/-- Among the registers with a property, the one that is found for an address is the one that it
lies in. -/
theorem find?_covers {p : Processor} {a : UInt32} {r : IoRegister} (q : IoRegister → Bool) :
    ((all p).find? fun r => q r && r.covers a) = some r ↔
      r ∈ all p ∧ q r = true ∧ r.start ≤ a.toNat ∧ a.toNat < r.start + r.size := by
  constructor
  · intro h
    have hr := List.mem_of_find?_eq_some h
    have hfound := List.find?_some h
    rw [Bool.and_eq_true, covers_iff hr] at hfound
    exact ⟨hr, hfound⟩
  · rintro ⟨hr, hq, hrange⟩
    cases hfind : (all p).find? fun r => q r && r.covers a with
    | none =>
      have hnone := List.find?_eq_none.mp hfind r hr
      rw [Bool.and_eq_true, covers_iff hr] at hnone
      exact absurd ⟨hq, hrange⟩ hnone
    | some r' =>
      have hr' := List.mem_of_find?_eq_some hfind
      have hfound := List.find?_some hfind
      rw [Bool.and_eq_true, covers_iff hr'] at hfound
      rcases apart r hr r' hr' with rfl | hapart | hapart
      · rfl
      · omega
      · omega

/-- The register that a byte is written to is the one that it lies in. -/
theorem writableAt?_eq_some_iff {p : Processor} {a : UInt32} {r : IoRegister} :
    writableAt? p a = some r ↔
      r ∈ all p ∧ r.isWritable = true ∧ r.start ≤ a.toNat ∧ a.toNat < r.start + r.size :=
  find?_covers isWritable

/-- The register that a byte is read from is the one that it lies in. -/
theorem at?_eq_some_iff {p : Processor} {a : UInt32} {r : IoRegister} :
    at? p a = some r ↔ r ∈ all p ∧ r.start ≤ a.toNat ∧ a.toNat < r.start + r.size := by
  have hany := find?_covers (p := p) (a := a) (r := r) fun _ => true
  unfold at?
  simpa only [Bool.true_and, true_and] using hany

section Places

variable {p : Processor} {a : UInt32} {r : IoRegister} (hr : r ∈ all p)
  (hlow : r.start ≤ a.toNat) (hhigh : a.toNat < r.start + r.size)
include hr hlow hhigh

theorem toNat_offset_of_covers : (r.offset a).toNat = a.toNat - r.start := by
  obtain ⟨n, hstart⟩ := size_dvd_start r hr
  have hmod : (r.offset a).toNat = a.toNat % r.size := by
    show (a &&& (r.width.bytes - 1)).toNat = a.toNat % r.width.bytes.toNat
    rw [UInt32.toNat_and]
    cases r.width with
    | byte => exact Nat.and_two_pow_sub_one_eq_mod a.toNat 0
    | half => exact Nat.and_two_pow_sub_one_eq_mod a.toNat 1
    | word => exact Nat.and_two_pow_sub_one_eq_mod a.toNat 2
  obtain ⟨d, hd⟩ := Nat.exists_eq_add_of_le hlow
  rw [hmod, hd, hstart, Nat.mul_add_mod, Nat.mod_eq_of_lt (by omega)]
  omega

theorem bytesAfter_of_covers : r.bytesAfter a = r.start + r.size - 1 - a.toNat := by
  have hoffset := toNat_offset_of_covers hr hlow hhigh
  have hlast : (r.width.bytes - 1).toNat = r.size - 1 := by
    unfold size
    cases r.width <;> rfl
  unfold bytesAfter
  rw [UInt32.toNat_sub_of_le _ _ (UInt32.le_iff_toNat_le.mpr (by omega)), hlast, hoffset]
  omega

/-- By how many bits an address lies in its register. -/
theorem toNat_shift_of_covers :
    (r.offset a * 8).toNat = 8 * (a.toNat - r.start) ∧ a.toNat - r.start < 4 := by
  have hoffset := toNat_offset_of_covers hr hlow hhigh
  have hsize := r.size_le
  have height : (8 : UInt32).toNat = 8 := rfl
  refine ⟨?_, by omega⟩
  rw [UInt32.toNat_mul, hoffset, height, Nat.mod_eq_of_lt (by omega), Nat.mul_comm]

end Places

variable {p : Processor} {a : UInt32} {r : IoRegister}

theorem toNat_offset (h : writableAt? p a = some r) : (r.offset a).toNat = a.toNat - r.start := by
  obtain ⟨hr, -, hlow, hhigh⟩ := writableAt?_eq_some_iff.mp h
  exact toNat_offset_of_covers hr hlow hhigh

theorem bytesAfter_eq (h : writableAt? p a = some r) :
    r.bytesAfter a = r.start + r.size - 1 - a.toNat := by
  obtain ⟨hr, -, hlow, hhigh⟩ := writableAt?_eq_some_iff.mp h
  exact bytesAfter_of_covers hr hlow hhigh

/-! ## Registers that forget -/

/-- The bits of a register that every write stores anew, with zeros for the bytes that are not
written. -/
def rewrittenBits : IoRegister → UInt32
  | divisionControl => 3
  | squareRootControl | interruptMaster => 1
  | _ => 0

end IoRegister

namespace System

/-- What writes have left in a processor's register. The results of the math units and the power
register hold nothing that was written, and the status bits of the math units do not count. -/
def storedBits (s : System) (p : Processor) : IoRegister → Nat
  | .divisionControl => (s.divider.control &&& 3).toNat
  | .numerator high => (halfOf s.divider.numerator high).toNat
  | .denominator high => (halfOf s.divider.denominator high).toNat
  | .squareRootControl => (s.squareRoot.control &&& 1).toNat
  | .squareRootInput high => (halfOf s.squareRoot.input high).toNat
  | .timerCounter i => ((s.timers.get p).reload.get i).toNat
  | .timerControl i => ((s.timers.get p).control.get i).raw.toNat
  | .ipcSync => (s.ipc.registers.get p).toNat
  | .interruptMaster => (s.interrupts.get p).master.toNat
  | .interruptEnable => (s.interrupts.get p).enabled.toNat
  | .interruptFlags => (s.interrupts.get p).raised.toNat
  | .bootFlag => (s.memory.bootFlags.get p).toNat
  | .haltControl | .quotient _ | .remainder _ | .squareRootResult => 0

end System

/-- Two changes to one processor's value are one. -/
theorem PerProcessor.modify_modify {α : Type} (x : PerProcessor α) (p : Processor) (f g : α → α) :
    (x.modify p f).modify p g = x.modify p fun a => g (f a) := by
  cases p <;> rfl

theorem PerProcessor.set_set {α : Type} (x : PerProcessor α) (p : Processor) (a b : α) :
    (x.set p a).set p b = x.set p b := by
  cases p <;> rfl

/-! ## Math units -/

theorem toNat_three : (3 : UInt16).toNat = 2 ^ 2 - 1 := rfl

namespace Divider

/-- What a division starts from is the inputs and the mode. -/
theorem restart_congr {d d' : Divider} (hnumerator : d'.numerator = d.numerator)
    (hdenominator : d'.denominator = d.denominator)
    (hcontrol : ∀ i < 14, d'.control.toNat.testBit i = d.control.toNat.testBit i) :
    d'.update.setBusy true = d.update.setBusy true := by
  have hmode : d'.mode = d.mode := by
    unfold mode
    rw [bits16_two, bits16_two,
      (and_low_eq_iff toNat_three).mpr fun i hi => hcontrol i (by omega)]
  have hstatus : setBit (setBit d'.control 14 (d'.denominator == 0)) 15 true =
      setBit (setBit d.control 14 (d.denominator == 0)) 15 true := by
    refine ext_testBit16 fun i hi => ?_
    rw [testBit_setBit16 _ _ (by decide) hi, testBit_setBit16 _ _ (by decide) hi,
      testBit_setBit16 _ _ (by decide) hi, testBit_setBit16 _ _ (by decide) hi, hdenominator]
    by_cases hbusy : i = 15
    · rw [if_pos hbusy, if_pos hbusy]
    · by_cases hzero : i = 14
      · rw [if_pos hzero, if_pos hzero]
      · rw [if_neg hzero, if_neg hzero, hcontrol i (by omega)]
  unfold update setBusy
  dsimp only
  rw [hstatus, hmode, hnumerator, hdenominator]

theorem testBit_restart (d : Divider) {i : Nat} (hi : i < 14) :
    (d.update.setBusy true).control.toNat.testBit i = d.control.toNat.testBit i := by
  show (setBit (setBit d.control 14 (d.denominator == 0)) 15 true).toNat.testBit i = _
  rw [testBit_setBit16 _ _ (by decide) (by omega), testBit_setBit16 _ _ (by decide) (by omega),
    if_neg (by omega), if_neg (by omega)]

theorem testBit_writeControl (d : Divider) (value : UInt16) {i : Nat} (hi : i < 16) :
    (d.writeControl value).control.toNat.testBit i =
      if i < 2 then value.toNat.testBit i else d.control.toNat.testBit i := by
  show ((d.control &&& ~~~3) ||| (value &&& 3)).toNat.testBit i = _
  rw [UInt16.toNat_or, Nat.testBit_or, UInt16.toNat_and, Nat.testBit_and, UInt16.toNat_and,
    Nat.testBit_and, testBit_not16 _ hi, toNat_three, Nat.testBit_two_pow_sub_one]
  by_cases hlow : i < 2 <;> simp [hlow]

end Divider

namespace SquareRoot

/-- What a square root starts from is the input and the mode. -/
theorem restart_congr {r r' : SquareRoot} (hinput : r'.input = r.input)
    (hcontrol : ∀ i < 15, r'.control.toNat.testBit i = r.control.toNat.testBit i) :
    r'.update.setBusy true = r.update.setBusy true := by
  have hwide : r'.isWide = r.isWide := by
    unfold isWide
    rw [isBit16_eq_testBit _ (by decide), isBit16_eq_testBit _ (by decide),
      hcontrol 0 (by decide)]
  have hstatus : setBit r'.control 15 true = setBit r.control 15 true := by
    refine ext_testBit16 fun i hi => ?_
    rw [testBit_setBit16 _ _ (by decide) hi, testBit_setBit16 _ _ (by decide) hi]
    by_cases hbusy : i = 15
    · rw [if_pos hbusy, if_pos hbusy]
    · rw [if_neg hbusy, if_neg hbusy, hcontrol i (by omega)]
  unfold update setBusy operand
  dsimp only
  rw [hstatus, hwide, hinput]

theorem testBit_restart (r : SquareRoot) {i : Nat} (hi : i < 15) :
    (r.update.setBusy true).control.toNat.testBit i = r.control.toNat.testBit i := by
  show (setBit r.control 15 true).toNat.testBit i = _
  rw [testBit_setBit16 _ _ (by decide) (by omega), if_neg (by omega)]

theorem testBit_writeControl (r : SquareRoot) (value : UInt16) {i : Nat} (hi : i < 16) :
    (r.writeControl value).control.toNat.testBit i =
      if i < 1 then value.toNat.testBit i else r.control.toNat.testBit i := by
  show (setBit r.control 0 (isBit value 0)).toNat.testBit i = _
  rw [testBit_setBit16 _ _ (by decide) hi, isBit16_eq_testBit _ (by decide)]
  by_cases hlow : i = 0
  · subst hlow
    rfl
  · rw [if_neg hlow, if_neg (by omega)]

end SquareRoot

/-! ## Timers -/

/-- What a timer does is settled by the low byte of its control register. -/
theorem TimerControl.congr_low {c c' : TimerControl}
    (h : ∀ i < 8, c'.raw.toNat.testBit i = c.raw.toNat.testBit i) :
    c'.isEnabled = c.isEnabled ∧ c'.countsUp = c.countsUp ∧ c'.prescaler = c.prescaler := by
  have hbit : ∀ i < 8, isBit c'.raw i = isBit c.raw i := by
    intro i hi
    rw [isBit16_eq_testBit _ (by omega), isBit16_eq_testBit _ (by omega), h i hi]
  refine ⟨hbit 7 (by decide), hbit 2 (by decide), ?_⟩
  unfold prescaler
  rw [bits16_two, bits16_two, (and_low_eq_iff toNat_three).mpr fun i hi => h i (by omega)]

namespace Timers

/-- The counter with which a timer goes on when its control register is written. -/
def counterAfter (t : Timers) (i : Fin 4) (control : TimerControl) (now : UInt64) : UInt16 :=
  if !(t.control.get i).isEnabled && control.isEnabled then t.reload.get i else t.read i now

theorem writeControl_eq (t : Timers) (i : Fin 4) (l : Lanes) (now : UInt64) :
    let control : TimerControl := ⟨l.merge16 (t.control.get i).raw⟩
    t.writeControl i l now =
      ({ t with
          control := t.control.set i.val control i.isLt
          counters := t.counters.set i.val (t.counterAfter i control now) i.isLt
          startedAt :=
            if control.countsTime i then t.startedAt.set i.val now i.isLt else t.startedAt },
        if control.countsTime i then
          some (untilOverflow (t.counterAfter i control now) control).toUInt64.toInt64
        else none) := by
  intro control
  unfold writeControl
  dsimp only [getElem_eq_get]
  by_cases hcounts : control.countsTime i = true
  · rw [if_pos hcounts, if_pos hcounts, if_pos hcounts]
    rfl
  · rw [if_neg hcounts, if_neg hcounts, if_neg hcounts]
    rfl

/-- Once its control register was written a timer shows that counter, at this time. -/
theorem read_writeControl (t : Timers) (i : Fin 4) (l : Lanes) (now : UInt64) :
    (t.writeControl i l now).1.read i now =
      t.counterAfter i ⟨l.merge16 (t.control.get i).raw⟩ now := by
  rw [writeControl_eq]
  dsimp only
  unfold read countsTime
  simp only [getElem_eq_get]
  rw [get_set_self, get_set_self]
  by_cases hcounts : TimerControl.countsTime ⟨l.merge16 (t.control.get i).raw⟩ i = true
  · rw [if_pos hcounts, if_pos hcounts, get_set_self]
    -- No time has passed since the timer was started.
    rw [UInt64.sub_self, UInt64.zero_div]
    exact UInt16.add_zero _
  · rw [if_neg hcounts]

/-- The high byte of a control register decides nothing, so it may be written later. -/
theorem writeControl_writeControl (t : Timers) (i : Fin 4) {l l₁ l₂ : Lanes}
    (h : l.Joins 16 l₁ l₂) (hhigh : ∀ j < 8, l₂.covers j = false) (now : UInt64) :
    (t.writeControl i l₁ now).1.writeControl i l₂ now = t.writeControl i l now ∧
      (t.writeControl i l₁ now).2 = (t.writeControl i l now).2 := by
  let first : TimerControl := ⟨l₁.merge16 (t.control.get i).raw⟩
  let control : TimerControl := ⟨l.merge16 (t.control.get i).raw⟩
  have hfirst : (t.writeControl i l₁ now).1.control.get i = first :=
    t.control_writeControl i l₁ now
  have hcontrol : (⟨l₂.merge16 first.raw⟩ : TimerControl) = control :=
    congrArg TimerControl.mk (h.merge16_merge16 _)
  obtain ⟨henabled, hup, hprescaler⟩ : control.isEnabled = first.isEnabled ∧
      control.countsUp = first.countsUp ∧ control.prescaler = first.prescaler := by
    refine TimerControl.congr_low fun j hj => ?_
    rw [← hcontrol, Lanes.testBit_merge16 _ _ (by omega), hhigh j hj]
    rfl
  have hcounts : control.countsTime i = first.countsTime i := by
    unfold TimerControl.countsTime
    rw [henabled, hup]
  have hsame : t.counterAfter i first now = t.counterAfter i control now := by
    unfold counterAfter
    rw [henabled]
  have hcounter : (t.writeControl i l₁ now).1.counterAfter i control now =
      t.counterAfter i control now := by
    have hon : (!first.isEnabled && control.isEnabled) = false := by
      rw [henabled, Bool.not_and_self]
    rw [← hsame, ← read_writeControl]
    unfold counterAfter
    rw [hfirst, hon]
    rfl
  have hdelay : ∀ counter, untilOverflow counter first = untilOverflow counter control := by
    intro counter
    unfold untilOverflow
    rw [hprescaler]
  constructor
  · rw [writeControl_eq _ i l₂, hfirst, hcontrol, hcounter, writeControl_eq t i l₁,
      writeControl_eq t i l]
    dsimp only
    simp only [Vector.set_set]
    by_cases hon : first.countsTime i = true
    · rw [if_pos (hcounts.trans hon), if_pos hon, if_pos (hcounts.trans hon),
        if_pos (hcounts.trans hon), Vector.set_set]
    · have hoff : ¬ control.countsTime i = true := by rwa [hcounts]
      rw [if_neg hoff, if_neg hon, if_neg hoff, if_neg hoff]
  · rw [writeControl_eq t i l₁, writeControl_eq t i l]
    exact if_congr (by rw [hcounts]) (by rw [hsame, hdelay]) rfl

end Timers

/-! ## Synchronisation -/

namespace Ipc

/-- The registers hold nothing but bits that are kept. -/
def Clean (ipc : Ipc) : Prop := ∀ p, ipc.registers.get p &&& ~~~keptMask = 0

theorem Clean.write {ipc : Ipc} (h : ipc.Clean) (p : Processor) (l : Lanes) :
    (ipc.write p l).1.Clean := by
  have hkept : ∀ new : UInt16,
      (ipc.registers.get p &&& ~~~keptMask ||| new &&& keptMask) &&& ~~~keptMask = 0 := by
    intro new
    have hapart : keptMask &&& ~~~keptMask = 0 := rfl
    rw [h p, UInt16.zero_or, UInt16.and_assoc, hapart, UInt16.and_zero]
  intro q
  by_cases hq : q = p
  · subst hq
    show ((ipc.registers.set q _).get q) &&& _ = 0
    rw [PerProcessor.get_set_self]
    exact hkept _
  · have hother : q = p.other := by cases p <;> cases q <;> first | rfl | exact absurd rfl hq
    subst hother
    show ((ipc.registers.set p _).get p.other) &&& _ = 0
    rw [PerProcessor.get_set_other]
    exact h p.other

/-- Bit 13 tells to raise an interrupt, and is not kept. -/
theorem Clean.testBit {ipc : Ipc} (h : ipc.Clean) (p : Processor) :
    (ipc.registers.get p).toNat.testBit 13 = false := by
  have hunkept : (~~~keptMask).toNat.testBit 13 = true := rfl
  have hbit := congrArg (fun x : UInt16 => x.toNat.testBit 13) (h p)
  rw [UInt16.toNat_and, Nat.testBit_and, hunkept, Bool.and_true] at hbit
  exact hbit

/-- What is kept of a write. -/
theorem testBit_kept (old new : UInt16) {i : Nat} (hi : i < 16) :
    ((old &&& ~~~keptMask) ||| (new &&& keptMask)).toNat.testBit i =
      if keptMask.toNat.testBit i = true then new.toNat.testBit i else old.toNat.testBit i := by
  rw [UInt16.toNat_or, Nat.testBit_or, UInt16.toNat_and, Nat.testBit_and, UInt16.toNat_and,
    Nat.testBit_and, testBit_not16 _ hi]
  cases keptMask.toNat.testBit i <;> simp

theorem keptMask_low : ∀ i < 8, keptMask.toNat.testBit i = false := by decide

/-- A write to the low byte does nothing. -/
theorem write_of_low {ipc : Ipc} (h : ipc.Clean) (p : Processor) {l : Lanes}
    (hlow : ∀ i, 8 ≤ i → i < 16 → l.covers i = false) : ipc.write p l = (ipc, false) := by
  have hnew : ∀ i, 8 ≤ i → i < 16 → (l.merge16 (ipc.registers.get p)).toNat.testBit i =
      (ipc.registers.get p).toNat.testBit i := by
    intro i hi hi'
    rw [Lanes.testBit_merge16 _ _ hi', hlow i hi hi']
    rfl
  have hkept : (ipc.registers.get p &&& ~~~keptMask) |||
      (l.merge16 (ipc.registers.get p) &&& keptMask) = ipc.registers.get p := by
    refine ext_testBit16 fun i hi => ?_
    rw [testBit_kept _ _ hi]
    by_cases hhigh : 8 ≤ i
    · rw [hnew i hhigh hi, ite_self]
    · rw [keptMask_low i (by omega)]
      rfl
  have hraises : isBit (l.merge16 (ipc.registers.get p)) 13 = false := by
    rw [isBit16_eq_testBit _ (by decide), hnew 13 (by decide) (by decide), h.testBit p]
  have hset : ipc.registers.set p (ipc.registers.get p) = ipc.registers := by cases p <;> rfl
  unfold write
  dsimp only
  rw [hkept, hraises, hset, Bool.false_and]

/-- Only the high byte counts. -/
theorem write_congr (ipc : Ipc) (p : Processor) {l l' : Lanes}
    (h : ∀ i, 8 ≤ i → i < 16 → l.covers i = l'.covers i ∧
      (l.covers i = true → l.value.toNat.testBit i = l'.value.toNat.testBit i)) :
    ipc.write p l = ipc.write p l' := by
  have hnew : ∀ i, 8 ≤ i → i < 16 → (l.merge16 (ipc.registers.get p)).toNat.testBit i =
      (l'.merge16 (ipc.registers.get p)).toNat.testBit i := by
    intro i hi hi'
    obtain ⟨hcovers, hvalue⟩ := h i hi hi'
    rw [Lanes.testBit_merge16 _ _ hi', Lanes.testBit_merge16 _ _ hi', ← hcovers]
    exact ite_congr rfl hvalue fun _ => rfl
  have hkept : (ipc.registers.get p &&& ~~~keptMask) |||
        (l.merge16 (ipc.registers.get p) &&& keptMask) =
      (ipc.registers.get p &&& ~~~keptMask) |||
        (l'.merge16 (ipc.registers.get p) &&& keptMask) := by
    refine ext_testBit16 fun i hi => ?_
    rw [testBit_kept _ _ hi, testBit_kept _ _ hi]
    by_cases hhigh : 8 ≤ i
    · rw [hnew i hhigh hi]
    · rw [keptMask_low i (by omega)]
      rfl
  have hraises : isBit (l.merge16 (ipc.registers.get p)) 13 =
      isBit (l'.merge16 (ipc.registers.get p)) 13 := by
    rw [isBit16_eq_testBit _ (by decide), isBit16_eq_testBit _ (by decide),
      hnew 13 (by decide) (by decide)]
  unfold write
  dsimp only
  rw [hkept, hraises]

/-- A write to both bytes is one to the high byte after one to the low byte. -/
theorem write_write {ipc : Ipc} (h : ipc.Clean) (p : Processor) {l l₁ l₂ : Lanes}
    (hjoins : l.Joins 16 l₁ l₂) (hlow : ∀ i, 8 ≤ i → i < 16 → l₁.covers i = false) :
    ipc.write p l₁ = (ipc, false) ∧ ipc.write p l₂ = ipc.write p l := by
  refine ⟨write_of_low h p hlow, write_congr ipc p fun i hi hi' => ?_⟩
  have hcovers := hjoins.covers i hi'
  rw [hlow i hi hi', Bool.false_or] at hcovers
  exact ⟨hcovers.symm, fun h₂ => (hjoins.second i hi' h₂).symm⟩

end Ipc

/-! ## Systems -/

namespace System

/-- What every write to a register relies on: no event waits twice, and the synchronisation
registers hold what they keep. -/
structure Regular (s : System) : Prop where
  distinct : EventQueue.Distinct s.queue.events
  clean : s.ipc.Clean

theorem invariant_regular : Invariant Regular where
  memory h _ := ⟨h.distinct, h.clean⟩
  bootFlags h _ := ⟨h.distinct, h.clean⟩
  control h _ := ⟨h.distinct, h.clean⟩
  ipc h p l := ⟨h.distinct, h.clean.write p l⟩
  scheduled h event _ delay := ⟨h.distinct.schedule event delay, h.clean⟩
  queue h operation _ := ⟨operation.distinct h.distinct, h.clean⟩
  devices h _ _ hipc hqueue := by
    refine ⟨?_, ?_⟩
    · rw [hqueue]
      exact h.distinct
    · rw [hipc]
      exact h.clean

/-! ### One write after the other -/

variable {s : System} {p : Processor} {l l' l₁ l₂ : Lanes} {r : IoRegister}

theorem startDivision_fst (s : System) (log : Log) :
    (s.startDivision log).1 =
      { s with
        divider := s.divider.update.setBusy true
        queue := s.queue.schedule .divisionDone (s.divider.update.setBusy true).latency } := rfl

theorem startSquareRoot_fst (s : System) (log : Log) :
    (s.startSquareRoot log).1 =
      { s with
        squareRoot := s.squareRoot.update.setBusy true
        queue := s.queue.schedule .squareRootDone SquareRoot.latency } := rfl

/-- Starting a division takes back the one that was started before. -/
theorem startDivision_startDivision (h : s.Regular) {first second whole : Divider}
    (log log' log'' : Log) (hnumerator : second.numerator = whole.numerator)
    (hdenominator : second.denominator = whole.denominator)
    (hcontrol : ∀ i < 14, second.control.toNat.testBit i = whole.control.toNat.testBit i) :
    (({ ({ s with divider := first }.startDivision log).1 with
        divider := second }).startDivision log').1 =
      ({ s with divider := whole }.startDivision log'').1 := by
  have hsame := Divider.restart_congr hnumerator hdenominator hcontrol
  rw [startDivision_fst, startDivision_fst, startDivision_fst]
  dsimp only
  rw [hsame, EventQueue.schedule_schedule h.distinct]

theorem startSquareRoot_startSquareRoot (h : s.Regular) {first second whole : SquareRoot}
    (log log' log'' : Log) (hinput : second.input = whole.input)
    (hcontrol : ∀ i < 15, second.control.toNat.testBit i = whole.control.toNat.testBit i) :
    (({ ({ s with squareRoot := first }.startSquareRoot log).1 with
        squareRoot := second }).startSquareRoot log').1 =
      ({ s with squareRoot := whole }.startSquareRoot log'').1 := by
  have hsame := SquareRoot.restart_congr hinput hcontrol
  rw [startSquareRoot_fst, startSquareRoot_fst, startSquareRoot_fst]
  dsimp only
  rw [hsame, EventQueue.schedule_schedule h.distinct]

/-- A write to some bytes of a register and then to others is one to all of them, if the register
does not forget bytes that are not written. In registers of two bytes the low one comes first. -/
theorem writeIo_writeIo (h : s.Regular) (hwide : r.width ≠ .byte) (hkeeps : r.rewrittenBits = 0)
    (hjoins : l.Joins (8 * r.size) l₁ l₂)
    (hlow : r.width = .half → ∀ i, 8 ≤ i → i < 16 → l₁.covers i = false)
    (hhigh : r.width = .half → ∀ i < 8, l₂.covers i = false) (log log' log'' : Log) :
    ((s.writeIo p l₁ log r).1.writeIo p l₂ log' r).1 = (s.writeIo p l log'' r).1 := by
  cases r with
  | divisionControl | squareRootControl | interruptMaster => exact absurd hkeeps (by decide)
  | haltControl | bootFlag => exact absurd rfl hwide
  | quotient | remainder | squareRootResult => rfl
  | numerator high =>
    exact startDivision_startDivision h log log' log''
      (hjoins.mergeHalf_mergeHalf high s.divider.numerator) rfl fun _ => Divider.testBit_restart _
  | denominator high =>
    exact startDivision_startDivision h log log' log'' rfl
      (hjoins.mergeHalf_mergeHalf high s.divider.denominator) fun _ => Divider.testBit_restart _
  | squareRootInput high =>
    exact startSquareRoot_startSquareRoot h log log' log''
      (hjoins.mergeHalf_mergeHalf high s.squareRoot.input) fun _ => SquareRoot.testBit_restart _
  | timerCounter i =>
    have hreload : ∀ t : Timers, (t.writeReload i l₁).writeReload i l₂ = t.writeReload i l := by
      intro t
      unfold Timers.writeReload
      dsimp only [Timers.getElem_eq_get]
      rw [Timers.get_set_self, hjoins.merge16_merge16, Vector.set_set]
    show { s with
        timers := (s.timers.modify p (·.writeReload i l₁)).modify p (·.writeReload i l₂) } =
      { s with timers := s.timers.modify p (·.writeReload i l) }
    rw [PerProcessor.modify_modify]
    exact congrArg (fun f => { s with timers := s.timers.modify p f }) (funext hreload)
  | timerControl i =>
    obtain ⟨htimers, hdelay⟩ := (s.timers.get p).writeControl_writeControl i hjoins (hhigh rfl)
      s.queue.now
    show ((s.writeTimerControl p i l₁ log).1.writeTimerControl p i l₂ log').1 =
      (s.writeTimerControl p i l log'').1
    rw [queue_writeTimerControl _ p i l₂, queue_writeTimerControl s p i l₁,
      queue_writeTimerControl s p i l]
    dsimp only
    rw [PerProcessor.get_set_self, hdelay]
    cases hoverflow : ((s.timers.get p).writeControl i l s.queue.now).2 with
    | none =>
      dsimp only
      rw [htimers, hoverflow, PerProcessor.set_set]
    | some delay =>
      dsimp only
      rw [EventQueue.now_schedule, htimers, hoverflow, PerProcessor.set_set]
      dsimp only
      rw [EventQueue.schedule_schedule h.distinct]
  | ipcSync =>
    obtain ⟨hfirst, hsecond⟩ := Ipc.write_write h.clean p hjoins (hlow rfl)
    -- The low byte cannot be written, so the write to the high byte is the whole one.
    have hnothing : s.writeIpc p l₁ = s := by
      unfold writeIpc
      rw [hfirst]
      rfl
    show (s.writeIpc p l₁).writeIpc p l₂ = s.writeIpc p l
    rw [hnothing]
    unfold writeIpc
    rw [hsecond]
  | interruptEnable =>
    have henabled : ∀ c : InterruptController,
        { c with enabled := l₂.merge (l₁.merge c.enabled) } =
          { c with enabled := l.merge c.enabled } := by
      intro c
      rw [hjoins.merge_merge]
    show { s with
        interrupts := (s.interrupts.modify p fun c => { c with enabled := l₁.merge c.enabled })
          |>.modify p fun c => { c with enabled := l₂.merge c.enabled } } =
      { s with
        interrupts := s.interrupts.modify p fun c => { c with enabled := l.merge c.enabled } }
    rw [PerProcessor.modify_modify]
    exact congrArg (fun f => { s with interrupts := s.interrupts.modify p f }) (funext henabled)
  | interruptFlags =>
    -- Ones clear flags, so zeros in the bytes that are not written do nothing here.
    have hraised : ∀ c : InterruptController,
        (c.acknowledge l₁.raw).acknowledge l₂.raw = c.acknowledge l.raw := by
      intro c
      have hnot : ~~~(l₁.raw ||| l₂.raw) = ~~~l₁.raw &&& ~~~l₂.raw := by
        rw [← UInt32.toBitVec_inj]
        exact BitVec.not_or
      show { c with raised := (c.raised &&& ~~~l₁.raw) &&& ~~~l₂.raw } = _
      rw [UInt32.and_assoc, ← hnot, ← hjoins.raw_or_raw]
      rfl
    show { s with
        interrupts :=
          (s.interrupts.modify p (·.acknowledge l₁.raw)).modify p (·.acknowledge l₂.raw) } =
      { s with interrupts := s.interrupts.modify p (·.acknowledge l.raw) }
    rw [PerProcessor.modify_modify]
    exact congrArg (fun f => { s with interrupts := s.interrupts.modify p f }) (funext hraised)

/-! ### The same write -/

/-- A write is settled by what it covers within the register. -/
theorem writeIo_congr (s : System) (p : Processor) (h : l.Alike (8 * r.size) l') (log : Log) :
    s.writeIo p l log r = s.writeIo p l' log r := by
  cases r with
  | haltControl | quotient | remainder | squareRootResult => rfl
  | divisionControl | squareRootControl | interruptMaster | interruptEnable =>
    have hmerge : l.merge = l'.merge := funext fun old => h.merge old
    unfold writeIo
    rw [hmerge]
  | numerator | denominator | squareRootInput =>
    unfold writeIo
    dsimp only
    rw [h.mergeHalf]
  | timerCounter i =>
    have hmerge : l.merge16 = l'.merge16 := funext fun old => h.merge16 old
    unfold writeIo Timers.writeReload
    rw [hmerge]
  | timerControl i =>
    have hmerge : l.merge16 = l'.merge16 := funext fun old => h.merge16 old
    unfold writeIo writeTimerControl Timers.writeControl
    rw [hmerge]
  | ipcSync =>
    have hmerge : l.merge16 = l'.merge16 := funext fun old => h.merge16 old
    unfold writeIo writeIpc Ipc.write
    rw [hmerge]
  | interruptFlags =>
    have hraw : l.raw = l'.raw := ext_testBit fun i hi => h.testBit_raw hi
    unfold writeIo
    rw [hraw]
  | bootFlag =>
    have hbyte : l.raw.toUInt8 = l'.raw.toUInt8 := by
      rw [← UInt8.toNat_inj, UInt32.toNat_toUInt8, UInt32.toNat_toUInt8]
      refine Nat.eq_of_testBit_eq fun i => ?_
      rw [Nat.testBit_mod_two_pow, Nat.testBit_mod_two_pow]
      by_cases hi : i < 8
      · rw [h.testBit_raw hi]
      · simp [hi]
    unfold writeIo
    rw [hbyte]

/-! ### Registers that forget -/

theorem merge_zero (l : Lanes) : l.merge 0 = l.raw := by
  show (0 &&& ~~~l.mask) ||| l.raw = l.raw
  rw [UInt32.zero_and, UInt32.zero_or]

/-- The second of two writes to a register that forgets takes back the first. -/
theorem writeIo_overwrites (h : s.Regular) (hforgets : r.rewrittenBits ≠ 0)
    (log log' log'' : Log) :
    ((s.writeIo p l₁ log r).1.writeIo p l₂ log' r).1 = (s.writeIo p l₂ log'' r).1 := by
  cases r with
  | divisionControl =>
    refine startDivision_startDivision h log log' log'' rfl rfl fun i hi => ?_
    rw [Divider.testBit_writeControl _ _ (by omega), Divider.testBit_writeControl _ _ (by omega)]
    refine ite_congr rfl (fun _ => rfl) fun hkept => ?_
    show ((s.divider.writeControl _).update.setBusy true).control.toNat.testBit i = _
    rw [Divider.testBit_restart _ hi, Divider.testBit_writeControl _ _ (by omega), if_neg hkept]
  | squareRootControl =>
    refine startSquareRoot_startSquareRoot h log log' log'' rfl fun i hi => ?_
    rw [SquareRoot.testBit_writeControl _ _ (by omega),
      SquareRoot.testBit_writeControl _ _ (by omega)]
    refine ite_congr rfl (fun _ => rfl) fun hkept => ?_
    show ((s.squareRoot.writeControl _).update.setBusy true).control.toNat.testBit i = _
    rw [SquareRoot.testBit_restart _ hi, SquareRoot.testBit_writeControl _ _ (by omega),
      if_neg hkept]
  | interruptMaster =>
    show { s with
        interrupts := (s.interrupts.modify p ({ · with master := isBit (l₁.merge 0) 0 })).modify p
          ({ · with master := isBit (l₂.merge 0) 0 }) } =
      { s with interrupts := s.interrupts.modify p ({ · with master := isBit (l₂.merge 0) 0 }) }
    rw [PerProcessor.modify_modify]
  | _ => exact absurd rfl hforgets

/-- Such a register is settled by the bits that every write stores anew. -/
theorem writeIo_of_forgets (s : System) (p : Processor) (hforgets : r.rewrittenBits ≠ 0)
    (h : l.raw &&& r.rewrittenBits = l'.raw &&& r.rewrittenBits) (log : Log) :
    s.writeIo p l log r = s.writeIo p l' log r := by
  have hlow : l.raw.toUInt16 &&& r.rewrittenBits.toUInt16 =
      l'.raw.toUInt16 &&& r.rewrittenBits.toUInt16 := by
    rw [← UInt32.toUInt16_and, ← UInt32.toUInt16_and, h]
  cases r with
  | divisionControl =>
    have hmode : s.divider.writeControl l.raw.toUInt16 = s.divider.writeControl l'.raw.toUInt16 :=
      congrArg
        (fun mode => { s.divider with control := (s.divider.control &&& ~~~3) ||| mode }) hlow
    unfold writeIo
    rw [merge_zero, merge_zero, hmode]
  | squareRootControl =>
    have hmode : s.squareRoot.writeControl l.raw.toUInt16 =
        s.squareRoot.writeControl l'.raw.toUInt16 :=
      congrArg
        (fun mode => { s.squareRoot with
          control := setBit s.squareRoot.control 0 (mode != 0) }) hlow
    unfold writeIo
    rw [merge_zero, merge_zero, hmode]
  | interruptMaster =>
    have hmaster : isBit l.raw 0 = isBit l'.raw 0 := congrArg (· != 0) h
    unfold writeIo
    rw [merge_zero, merge_zero, hmaster]
  | _ => exact absurd rfl hforgets

/-! ### What a write stores -/

theorem mode_restart (d : Divider) :
    (d.update.setBusy true).control &&& 3 = d.control &&& 3 :=
  (and_low_eq_iff toNat_three).mpr fun _ hi => d.testBit_restart (by omega)

theorem width_restart (x : SquareRoot) :
    (x.update.setBusy true).control &&& 1 = x.control &&& 1 :=
  (and_low_eq_iff (n := 1) rfl).mpr fun _ hi => x.testBit_restart (by omega)

/-- A write to a register stores nothing in another one. -/
theorem storedBits_writeIo_of_ne (s : System) (p : Processor) (l : Lanes) (log : Log)
    {r r' : IoRegister} (hne : r' ≠ r) :
    (s.writeIo p l log r).1.storedBits p r' = s.storedBits p r' := by
  cases r with
  | haltControl | quotient | remainder | squareRootResult => rfl
  | divisionControl =>
    cases r' with
    | divisionControl => exact absurd rfl hne
    | _ => rfl
  | numerator high =>
    cases r' with
    | numerator high' =>
      have hhalf : high' ≠ high := fun heq => hne (congrArg IoRegister.numerator heq)
      show (halfOf (l.mergeHalf high s.divider.numerator) high').toNat = _
      rw [Lanes.halfOf_mergeHalf, if_neg hhalf]
      rfl
    | divisionControl => exact congrArg UInt16.toNat (mode_restart _)
    | _ => rfl
  | denominator high =>
    cases r' with
    | denominator high' =>
      have hhalf : high' ≠ high := fun heq => hne (congrArg IoRegister.denominator heq)
      show (halfOf (l.mergeHalf high s.divider.denominator) high').toNat = _
      rw [Lanes.halfOf_mergeHalf, if_neg hhalf]
      rfl
    | divisionControl => exact congrArg UInt16.toNat (mode_restart _)
    | _ => rfl
  | squareRootControl =>
    cases r' with
    | squareRootControl => exact absurd rfl hne
    | _ => rfl
  | squareRootInput high =>
    cases r' with
    | squareRootInput high' =>
      have hhalf : high' ≠ high := fun heq => hne (congrArg IoRegister.squareRootInput heq)
      show (halfOf (l.mergeHalf high s.squareRoot.input) high').toNat = _
      rw [Lanes.halfOf_mergeHalf, if_neg hhalf]
      rfl
    | squareRootControl => exact congrArg UInt16.toNat (width_restart _)
    | _ => rfl
  | timerCounter i =>
    cases r' with
    | timerCounter j =>
      have hj : j ≠ i := fun heq => hne (congrArg IoRegister.timerCounter heq)
      show (((s.timers.modify p (·.writeReload i l)).get p).reload.get j).toNat = _
      rw [PerProcessor.get_modify_self, (Timers.sameAt_writeReload _ hj l).reload]
      rfl
    | timerControl j =>
      show (((s.timers.modify p (·.writeReload i l)).get p).control.get j).raw.toNat = _
      rw [PerProcessor.get_modify_self]
      rfl
    | _ => rfl
  | timerControl i =>
    show (s.writeTimerControl p i l log).1.storedBits p r' = _
    rw [queue_writeTimerControl]
    cases r' with
    | timerCounter j =>
      show (((s.timers.set p _).get p).reload.get j).toNat = _
      rw [PerProcessor.get_set_self, Timers.writeControl_eq]
      rfl
    | timerControl j =>
      have hj : j ≠ i := fun heq => hne (congrArg IoRegister.timerControl heq)
      show (((s.timers.set p _).get p).control.get j).raw.toNat = _
      rw [PerProcessor.get_set_self, (Timers.sameAt_writeControl _ hj l _).control]
      rfl
    | _ => rfl
  | ipcSync =>
    -- The interrupt that may be raised is one of the other processor.
    show (s.writeIpc p l).storedBits p r' = _
    unfold writeIpc
    dsimp only
    split <;> cases p <;> cases r' <;> first | rfl | exact absurd rfl hne
  | interruptMaster | interruptEnable | interruptFlags =>
    cases p <;> cases r' <;> first | rfl | exact absurd rfl hne
  | bootFlag =>
    cases r' with
    | bootFlag => exact absurd rfl hne
    | _ => rfl

/-- A register that forgets holds what was written last. -/
theorem storedBits_writeIo_of_forgets (s : System) (p : Processor) (l : Lanes) (log : Log)
    (hforgets : r.rewrittenBits ≠ 0) :
    (s.writeIo p l log r).1.storedBits p r = (l.raw &&& r.rewrittenBits).toNat := by
  have hword : (l.raw.toUInt16 &&& r.rewrittenBits.toUInt16).toNat =
      (l.raw &&& r.rewrittenBits).toNat := by
    rw [← UInt32.toUInt16_and, UInt32.toNat_toUInt16, UInt32.toNat_and]
    refine Nat.mod_eq_of_lt (Nat.and_lt_two_pow _ ?_)
    unfold IoRegister.rewrittenBits
    split <;> decide
  cases r with
  | divisionControl =>
    rw [← hword, ← merge_zero]
    refine congrArg UInt16.toNat ((mode_restart _).trans ?_)
    refine (and_low_eq_iff toNat_three).mpr fun i hi => ?_
    rw [Divider.testBit_writeControl _ _ (by omega), if_pos hi]
  | squareRootControl =>
    rw [← hword, ← merge_zero]
    refine congrArg UInt16.toNat ((width_restart _).trans ?_)
    refine (and_low_eq_iff (n := 1) rfl).mpr fun i hi => ?_
    rw [SquareRoot.testBit_writeControl _ _ (by omega), if_pos hi]
  | interruptMaster =>
    show ((s.interrupts.modify p _).get p).master.toNat = _
    rw [PerProcessor.get_modify_self]
    show (isBit (l.merge 0) 0).toNat = (l.raw &&& 1).toNat
    rw [merge_zero, isBit_eq_testBit _ (by decide), UInt32.toNat_and]
    exact ((Nat.and_two_pow _ 0).trans (Nat.mul_one _)).symm
  | _ => exact absurd rfl hforgets

/-- The bits of a register that a write does not cover stay as they are, or become zero if the
register forgets. -/
theorem testBit_storedBits_writeIo (s : System) (p : Processor) (log : Log) {i : Nat}
    (hi : i < 8 * r.size) (huncovered : l.covers i = false) :
    ((s.writeIo p l log r).1.storedBits p r).testBit i =
      if r.rewrittenBits ≠ 0 then false else (s.storedBits p r).testBit i := by
  by_cases hforgets : r.rewrittenBits ≠ 0
  · rw [if_pos hforgets, storedBits_writeIo_of_forgets _ _ _ _ hforgets, UInt32.toNat_and,
      Nat.testBit_and, Lanes.testBit_raw, huncovered, Bool.false_and, Bool.false_and]
  · rw [if_neg hforgets]
    cases r with
    | divisionControl | squareRootControl | interruptMaster => exact absurd (by decide) hforgets
    | haltControl | quotient | remainder | squareRootResult => rfl
    | numerator high =>
      show (halfOf (l.mergeHalf high s.divider.numerator) high).toNat.testBit i = _
      rw [Lanes.halfOf_mergeHalf, if_pos rfl, Lanes.testBit_merge _ _ hi, huncovered]
      rfl
    | denominator high =>
      show (halfOf (l.mergeHalf high s.divider.denominator) high).toNat.testBit i = _
      rw [Lanes.halfOf_mergeHalf, if_pos rfl, Lanes.testBit_merge _ _ hi, huncovered]
      rfl
    | squareRootInput high =>
      show (halfOf (l.mergeHalf high s.squareRoot.input) high).toNat.testBit i = _
      rw [Lanes.halfOf_mergeHalf, if_pos rfl, Lanes.testBit_merge _ _ hi, huncovered]
      rfl
    | timerCounter j =>
      show (((s.timers.modify p (·.writeReload j l)).get p).reload.get j).toNat.testBit i = _
      rw [PerProcessor.get_modify_self]
      unfold Timers.writeReload
      dsimp only [Timers.getElem_eq_get]
      rw [Timers.get_set_self, Lanes.testBit_merge16 _ _ hi, huncovered]
      rfl
    | timerControl j =>
      show ((s.writeTimerControl p j l log).1.storedBits p (.timerControl j)).testBit i = _
      rw [queue_writeTimerControl]
      show (((s.timers.set p _).get p).control.get j).raw.toNat.testBit i = _
      rw [PerProcessor.get_set_self, Timers.control_writeControl]
      show (l.merge16 _).toNat.testBit i = _
      rw [Lanes.testBit_merge16 _ _ hi, huncovered]
      rfl
    | ipcSync =>
      have hipc : (s.writeIpc p l).ipc = (s.ipc.write p l).1 := by
        unfold writeIpc
        dsimp only
        split <;> rfl
      show ((s.writeIpc p l).ipc.registers.get p).toNat.testBit i = _
      rw [hipc]
      show ((s.ipc.registers.set p _).get p).toNat.testBit i = _
      rw [PerProcessor.get_set_self, Ipc.testBit_kept _ _ hi, Lanes.testBit_merge16 _ _ hi,
        huncovered, if_neg Bool.false_ne_true, ite_self]
      rfl
    | interruptEnable =>
      show (((s.interrupts.modify p fun c => { c with enabled := l.merge c.enabled }).get
        p).enabled).toNat.testBit i = _
      rw [PerProcessor.get_modify_self]
      show (l.merge _).toNat.testBit i = _
      rw [Lanes.testBit_merge _ _ hi, huncovered]
      rfl
    | interruptFlags =>
      show (((s.interrupts.modify p (·.acknowledge l.raw)).get p).raised).toNat.testBit i = _
      rw [PerProcessor.get_modify_self]
      show ((s.interrupts.get p).raised &&& ~~~l.raw).toNat.testBit i = _
      rw [UInt32.toNat_and, Nat.testBit_and, testBit_not _ hi, Lanes.testBit_raw, huncovered]
      exact Bool.and_true _
    | bootFlag =>
      show (((s.memory.bootFlags.modify p (· ||| (l.raw.toUInt8 &&& 1))).get p)).toNat.testBit i = _
      rw [PerProcessor.get_modify_self, UInt8.toNat_or, Nat.testBit_or, UInt8.toNat_and,
        Nat.testBit_and, UInt32.toNat_toUInt8, Nat.testBit_mod_two_pow, Lanes.testBit_raw,
        huncovered]
      simp [storedBits]

end System
end Handheld.Console
