import Mathlib
import Handheld.Proofs.Console.SplitWrites

/-!
# Reads of device registers, byte by byte

A wide read of the device registers is put together from the registers that it touches, each of
which is read once. It gives the bytes that narrow reads of the same places give: a register has
its bytes at its addresses, `System.ioBit`, and a byte without a register reads as zero.
-/

namespace Handheld.Console

open IoRegister Word Address

/-! ## Bits of the register area -/

namespace System

/-- Bit `j` of the byte at offset `n` of a processor's register area. -/
def ioBit (s : System) (p : Processor) (n j : Nat) : Bool :=
  match at? p (UInt32.ofNat n) with
  | none => false
  | some r => (s.ioValue p r).toNat.testBit (8 * (n - r.start) + j)

/-- The byte at offset `n` of a processor's register area: one of the register that is there, or
zero. -/
def ioByte (s : System) (p : Processor) (n : Nat) : Nat :=
  match at? p (UInt32.ofNat n) with
  | none => 0
  | some r => (s.ioValue p r).toNat / 256 ^ (n - r.start) % 256

/-- The value of a register fits into its bytes. -/
theorem ioValue_lt (s : System) (p : Processor) (r : IoRegister) :
    (s.ioValue p r).toNat < 2 ^ (8 * r.size) := by
  cases r with
  | haltControl => exact Nat.two_pow_pos _
  | bootFlag => exact (s.memory.bootFlags.get p).toNat_lt
  | timerCounter i => exact ((s.timers.get p).read i s.queue.now).toNat_lt
  | timerControl i => exact ((s.timers.get p).readControl i).toNat_lt
  | ipcSync => exact (s.ipc.read p).toNat_lt
  | _ => exact UInt32.toNat_lt _

variable {s : System} {p : Processor} {n j : Nat}

theorem ioBit_of_none (h : at? p (UInt32.ofNat n) = none) : s.ioBit p n j = false := by
  unfold ioBit
  rw [h]

theorem ioByte_lt : s.ioByte p n < 256 := by
  unfold ioByte
  split
  · decide
  · exact Nat.mod_lt _ (by decide)

theorem testBit_ioByte (hj : j < 8) : (s.ioByte p n).testBit j = s.ioBit p n j := by
  unfold ioByte ioBit
  cases at? p (UInt32.ofNat n) with
  | none => exact Nat.zero_testBit j
  | some r =>
    have hbase : 256 ^ (n - r.start) = 2 ^ (8 * (n - r.start)) := (pow_mul 2 8 _).symm
    show ((s.ioValue p r).toNat / 256 ^ (n - r.start) % 2 ^ 8).testBit j = _
    rw [hbase, Nat.testBit_mod_two_pow, Nat.testBit_div_two_pow, decide_eq_true hj, Bool.true_and,
      Nat.add_comm]

/-- A byte with the bits of the register area is one of its bytes. -/
theorem eq_ioByte {x : Nat} (hx : x < 256) (hbit : ∀ j < 8, x.testBit j = s.ioBit p n j) :
    x = s.ioByte p n := by
  refine Nat.eq_of_testBit_eq fun j => ?_
  by_cases hj : j < 8
  · rw [hbit j hj, testBit_ioByte hj]
  · have hbeyond : 256 ≤ 2 ^ j := Nat.pow_le_pow_right (by decide : 0 < 2) (by omega : 8 ≤ j)
    rw [Nat.testBit_lt_two_pow (hx.trans_le hbeyond),
      Nat.testBit_lt_two_pow (ioByte_lt.trans_le hbeyond)]

/-- The bytes of a register are at its addresses. -/
theorem ioBit_of_mem {r : IoRegister} (hr : r ∈ all p) (hn : n < 2 ^ 32) (hlow : r.start ≤ n)
    (hhigh : n < r.start + r.size) :
    s.ioBit p n j = (s.ioValue p r).toNat.testBit (8 * (n - r.start) + j) := by
  have hplace : (UInt32.ofNat n).toNat = n := by
    rw [UInt32.toNat_ofNat']
    exact Nat.mod_eq_of_lt hn
  have hfound : at? p (UInt32.ofNat n) = some r :=
    at?_eq_some_iff.mpr ⟨hr, by rwa [hplace], by rwa [hplace]⟩
  unfold ioBit
  rw [hfound]

end System

/-! ## A wide read -/

section

variable {p : Processor} {a shift : UInt32} {r : IoRegister}

/-- The part of a register from an address on, at its place in the value of the access. -/
theorem testBit_part (hr : r ∈ all p) (hlow : r.start ≤ a.toNat)
    (hhigh : a.toNat < r.start + r.size) (value : UInt32) (hshift : shift.toNat < 32) {i : Nat}
    (hi : i < 32) :
    ((value >>> (r.offset a * 8)) <<< shift).toNat.testBit i =
      (decide (shift.toNat ≤ i) &&
        value.toNat.testBit (8 * (a.toNat - r.start) + (i - shift.toNat))) := by
  obtain ⟨hoffset, hplace⟩ := toNat_shift_of_covers hr hlow hhigh
  rw [testBit_shiftLeft _ hshift hi, testBit_shiftRight _ (by omega), hoffset]

/-- What the accesses to registers gather: the bits that are there already, and the bits of the
register area behind the bytes that were read together with the one before them. -/
theorem testBit_readIoFrom (b : Board System) (left skip : Nat) (total : UInt32)
    (ha : a.toNat + left < 2 ^ 32) (hshift : shift.toNat + 8 * left ≤ 32) {i : Nat}
    (hi : i < shift.toNat + 8 * left) :
    (readIoFrom p left skip a shift total b).1.toNat.testBit i =
      (total.toNat.testBit i ||
        (decide (shift.toNat + 8 * skip ≤ i) &&
          b.system.ioBit p (a.toNat + (i - shift.toNat) / 8) ((i - shift.toNat) % 8))) := by
  induction left generalizing skip a shift total b with
  | zero =>
    have hnot : ¬ shift.toNat + 8 * skip ≤ i := by omega
    rw [decide_eq_false hnot, Bool.false_and, Bool.or_false]
    rfl
  | succ left ih =>
    have hnext : (a + 1).toNat = a.toNat + 1 := toNat_add_one (by omega)
    have height : (8 : UInt32).toNat = 8 := rfl
    have hlater : (shift + 8).toNat = shift.toNat + 8 := by
      rw [UInt32.toNat_add, height]
      omega
    -- Seen from the next byte, a later bit is at the same place.
    have hplace : shift.toNat + 8 ≤ i →
        a.toNat + 1 + (i - (shift.toNat + 8)) / 8 = a.toNat + (i - shift.toNat) / 8 ∧
          (i - (shift.toNat + 8)) % 8 = (i - shift.toNat) % 8 := by omega
    cases skip with
    | succ skip =>
      refine (ih b skip total (by omega) (by omega) (by omega)).trans ?_
      rw [hnext, hlater]
      by_cases hbehind : shift.toNat + 8 * (skip + 1) ≤ i
      · obtain ⟨hbyte, hbit⟩ := hplace (by omega)
        rw [decide_eq_true hbehind, decide_eq_true (by omega), hbyte, hbit]
      · rw [decide_eq_false hbehind, decide_eq_false (by omega)]
        rfl
    | zero =>
      cases hfound : at? p a with
      | none =>
        have hread : readIoFrom p (left + 1) 0 a shift total b =
            readIoFrom p left 0 (a + 1) (shift + 8) total
              { b with log := b.log.add (.unknownIoRead p a) } := by
          conv_lhs => unfold readIoFrom
          rw [hfound]
          rfl
        rw [hread, ih _ 0 total (by omega) (by omega) (by omega), hnext, hlater]
        by_cases hbehind : shift.toNat + 8 ≤ i
        · obtain ⟨hbyte, hbit⟩ := hplace hbehind
          rw [decide_eq_true (by omega), decide_eq_true (by omega), hbyte, hbit]
        · have hfirst : (i - shift.toNat) / 8 = 0 := by omega
          have hempty : at? p (UInt32.ofNat (a.toNat + 0)) = none := by
            rwa [Nat.add_zero, UInt32.ofNat_toNat]
          rw [decide_eq_false (by omega), hfirst, System.ioBit_of_none hempty, Bool.false_and,
            Bool.and_false]
      | some r =>
        obtain ⟨hr, hlow, hhigh⟩ := at?_eq_some_iff.mp hfound
        have hread : readIoFrom p (left + 1) 0 a shift total b =
            readIoFrom p left (r.bytesAfter a) (a + 1) (shift + 8)
              (total ||| (b.system.ioValue p r >>> (r.offset a * 8)) <<< shift) b := by
          conv_lhs => unfold readIoFrom
          rw [hfound]
          rfl
        rw [hread, ih _ _ _ (by omega) (by omega) (by omega), hnext, hlater,
          bytesAfter_of_covers hr hlow hhigh, UInt32.toNat_or, Nat.testBit_or,
          testBit_part hr hlow hhigh _ (by omega) (by omega),
          show shift.toNat + 8 * 0 = shift.toNat from rfl]
        by_cases hbefore : i < shift.toNat
        · rw [decide_eq_false (by omega), decide_eq_false (by omega)]
          simp only [Bool.false_and, Bool.or_false]
        rw [decide_eq_true (by omega : shift.toNat ≤ i), Bool.true_and, Bool.true_and]
        by_cases hbehind : shift.toNat + 8 + 8 * (r.start + r.size - 1 - a.toNat) ≤ i
        · -- Behind its last byte the register has no bits.
          have hsmall := b.system.ioValue_lt p r
          have hbeyond : (b.system.ioValue p r).toNat.testBit
              (8 * (a.toNat - r.start) + (i - shift.toNat)) = false :=
            Nat.testBit_lt_two_pow
              (hsmall.trans_le (Nat.pow_le_pow_right (by decide) (by omega)))
          obtain ⟨hbyte, hbit⟩ := hplace (by omega)
          rw [decide_eq_true hbehind, hbeyond, hbyte, hbit, Bool.or_false, Bool.true_and]
        · have hdigit : 8 * (a.toNat + (i - shift.toNat) / 8 - r.start) + (i - shift.toNat) % 8 =
              8 * (a.toNat - r.start) + (i - shift.toNat) := by omega
          rw [decide_eq_false hbehind, Bool.false_and, Bool.or_false,
            System.ioBit_of_mem hr (by omega) (by omega) (by omega), hdigit]

end

/-! ## Sessions -/

/-- A number is the sum of its bytes. -/
theorem eq_sum_of_bytes {x n : Nat} {byte : Nat → Nat} (hx : x < 256 ^ n)
    (hbyte : ∀ k < n, byte k < 256)
    (hbit : ∀ i < 8 * n, x.testBit i = (byte (i / 8)).testBit (i % 8)) :
    x = ∑ k ∈ Finset.range n, 256 ^ k * byte k := by
  have hdigit : ∀ k < n, x / 256 ^ k % 256 = byte k := by
    intro k hk
    have hbase : 256 ^ k = 2 ^ (8 * k) := (pow_mul 2 8 k).symm
    refine Nat.eq_of_testBit_eq fun j => ?_
    show (x / 256 ^ k % 2 ^ 8).testBit j = _
    rw [hbase, Nat.testBit_mod_two_pow, Nat.testBit_div_two_pow]
    by_cases hj : j < 8
    · have hplace : (j + 8 * k) / 8 = k ∧ (j + 8 * k) % 8 = j := by omega
      rw [decide_eq_true hj, Bool.true_and, hbit _ (by omega), hplace.1, hplace.2]
    · have hbeyond : (byte k).testBit j = false :=
        Nat.testBit_lt_two_pow ((hbyte k hk).trans_le
          (Nat.pow_le_pow_right (by omega : 0 < 2) (by omega : 8 ≤ j)))
      rw [decide_eq_false hj, Bool.false_and, hbeyond]
  have hsum : ∀ m ≤ n, x % 256 ^ m = ∑ k ∈ Finset.range m, 256 ^ k * byte k := by
    intro m
    induction m with
    | zero =>
      intro _
      simp [Nat.mod_one]
    | succ m ih =>
      intro hm
      rw [Finset.sum_range_succ, ← ih (by omega), ← hdigit m (by omega), Nat.mod_pow_succ]
  rw [← hsum n le_rfl, Nat.mod_eq_of_lt hx]

/-- No window takes a read of one of the bytes. Only the main processor has windows. -/
def SystemControl.Uncovered (c : SystemControl) (p : Processor) (address : UInt32) (count : Nat) :
    Prop :=
  p = .arm9 → ∀ tcm, ∀ k < count, c.tcmOffset? tcm (address + UInt32.ofNat k) false = none

section

variable {p : Processor} {w : Width} {address : UInt32}

/-- The address of a byte of an aligned access to the device registers. -/
theorem toNat_byte (hw : w.bytes.toNat ∣ address.toNat) (hio : address.toNat / 2 ^ 24 = 4) {k : Nat}
    (hk : k < w.bytes.toNat) :
    (address + UInt32.ofNat k).toNat = address.toNat + k ∧
      address.toNat % 2 ^ 24 + k < 2 ^ 24 := by
  have hsize := w.toNat_bytes
  have hindex : (UInt32.ofNat k).toNat = k := by
    rw [UInt32.toNat_ofNat']
    omega
  rw [UInt32.toNat_add, hindex]
  rcases hsize with h | h | h <;> rw [h] at hw hk <;> omega

/-- In a session the windows take all bytes of an aligned access or none. -/
theorem SystemControl.Settled.uncovered {c : SystemControl} (h : c.Settled)
    (hw : w.bytes.toNat ∣ address.toNat) (hio : address.toNat / 2 ^ 24 = 4)
    (hopen : c.Open p false address.toNat) : c.Uncovered p address w.bytes.toNat := by
  intro hp tcm k hk
  apply h.tcmOffset?_of_passes
  intro htakes
  obtain ⟨hplace, -⟩ := toNat_byte hw hio hk
  have hword : 4 ∣ address.toNat / 4 * 4 := Nat.dvd_mul_left 4 _
  have hfits : address.toNat % 4 + k < 4 := by
    rcases w.toNat_bytes with h | h | h <;> rw [h] at hw hk <;> omega
  have hfirst : address.toNat / 4 * 4 + address.toNat % 4 = address.toNat := by omega
  have hbyte : address.toNat / 4 * 4 + (address.toNat % 4 + k) = address.toNat + k := by omega
  -- Both bytes lie in one word.
  apply hopen hp tcm
  rw [hplace, ← hbyte] at htakes
  rw [← hfirst]
  exact (takes_byte_iff hword (by omega) (by omega)).mpr
    ((takes_byte_iff hword hfits (by omega)).mp htakes)

/-- An address of the device registers that no window covers leads to them. -/
theorem target_of_uncovered {s : System} (hio : address.toNat / 2 ^ 24 = 4)
    (hopen : p = .arm9 → ∀ tcm, s.control.tcmOffset? tcm address false = none) :
    s.target p address false = .io := by
  have htop : (address >>> 24).toNat = 4 := (toNat_top address).trans hio
  have hbus : busTarget p address = .io := by
    unfold busTarget
    rw [htop]
    cases p <;> rfl
  cases p with
  | arm7 => exact hbus
  | arm9 =>
    unfold System.target
    rw [hopen rfl .inst, hopen rfl .data]
    exact hbus

/-- A read that leads to the device registers. -/
theorem testBit_read (b : Board System) (hw : w.bytes.toNat ∣ address.toNat)
    (hio : address.toNat / 2 ^ 24 = 4) (htarget : b.system.target p address false = .io) :
    (Console.read p w address b).1.toNat < 256 ^ w.bytes.toNat ∧
      ∀ i < 8 * w.bytes.toNat, (Console.read p w address b).1.toNat.testBit i =
        b.system.ioBit p (address.toNat % 2 ^ 24 + i / 8) (i % 8) := by
  obtain ⟨k, -, hbytes⟩ := w.bytes_eq_pow
  have hdown : alignDown address w.bytes = address := alignDown_of_dvd hbytes hw
  have hfour : w.bytes.toNat ≤ 4 := by cases w <;> decide
  have harea : (address &&& 0xFFFFFF).toNat = address.toNat % 2 ^ 24 := toNat_area address
  have hread : (Console.read p w address b).1 =
      w.truncate (readIoFrom p w.bytes.toNat 0 (address &&& 0xFFFFFF) 0 0 b).1 := by
    unfold Console.read
    rw [hdown, BoardM.ask_bind, htarget]
    rfl
  rw [hread]
  constructor
  · rw [w.toNat_truncate]
    exact Nat.mod_lt _ (by positivity)
  · intro i hi
    rw [testBit_truncate w _ hi, testBit_readIoFrom b w.bytes.toNat 0 0 (by omega)
      (by show 0 + _ ≤ _; omega) (by show _ < 0 + _; omega), harea]
    show (Nat.testBit 0 i || (decide (0 ≤ i) &&
      b.system.ioBit p (address.toNat % 2 ^ 24 + (i - 0) / 8) ((i - 0) % 8))) = _
    rw [Nat.zero_testBit, Bool.false_or, decide_eq_true (Nat.zero_le i), Bool.true_and,
      Nat.sub_zero]

/-- **Reads give the bytes of the register area.** Take any session and any aligned address of the
device registers, of which no byte is covered by a window. A read of any width gives the bytes that
narrow reads of its addresses give, the lowest address first, whatever the log has; and it leaves
the session as it is. What the narrow reads give are the bytes of the registers there, and zero
where there is none. -/
theorem Session.reads_by_lanes (s : Session) (hw : w.bytes.toNat ∣ address.toNat)
    (hio : address.toNat / 2 ^ 24 = 4)
    (hopen : s.system.control.Uncovered p address w.bytes.toNat) (log : Log)
    (logs : Nat → Log) :
    (s.read p w address log).2.1 = s ∧
      (s.read p w address log).1.toNat = ∑ k ∈ Finset.range w.bytes.toNat,
        256 ^ k * (s.read p .byte (address + UInt32.ofNat k) (logs k)).1.toNat ∧
      ∀ k < w.bytes.toNat, (s.read p .byte (address + UInt32.ofNat k) (logs k)).1.toNat =
        s.system.ioByte p (address.toNat % 2 ^ 24 + k) := by
  let board := fun log : Log => (⟨s.cpus.get p, s.system, log⟩ : Board System)
  have htarget : ∀ k < w.bytes.toNat,
      s.system.target p (address + UInt32.ofNat k) false = .io := by
    intro k hk
    obtain ⟨hplace, hfits⟩ := toNat_byte hw hio hk
    exact target_of_uncovered (by omega) fun hp tcm => hopen hp tcm k hk
  have hpositive : 0 < w.bytes.toNat := by cases w <;> decide
  have hfirst : s.system.target p address false = .io := by
    have hzero := htarget 0 hpositive
    rwa [show address + UInt32.ofNat 0 = address from UInt32.add_zero address] at hzero
  obtain ⟨hlt, hbit⟩ := testBit_read (board log) hw hio hfirst
  -- Each byte is read at its own address, and has the same bits of the register area.
  have hbyte : ∀ k < w.bytes.toNat,
      (s.read p .byte (address + UInt32.ofNat k) (logs k)).1.toNat < 256 ∧
        ∀ j < 8, (s.read p .byte (address + UInt32.ofNat k) (logs k)).1.toNat.testBit j =
          s.system.ioBit p (address.toNat % 2 ^ 24 + k) j := by
    intro k hk
    obtain ⟨hplace, hfits⟩ := toNat_byte hw hio hk
    obtain ⟨hsmall, hdigit⟩ := testBit_read (w := .byte) (board (logs k)) (one_dvd _)
      (by omega) (htarget k hk)
    refine ⟨hsmall, fun j hj => (hdigit j hj).trans ?_⟩
    have hsame : (address + UInt32.ofNat k).toNat % 2 ^ 24 + j / 8 =
        address.toNat % 2 ^ 24 + k := by omega
    rw [hsame, Nat.mod_eq_of_lt hj]
  refine ⟨s.read_fst p w address log, ?_, fun k hk => ?_⟩
  · refine eq_sum_of_bytes hlt (fun k hk => (hbyte k hk).1) fun i hi => ?_
    exact (hbit i hi).trans ((hbyte (i / 8) (by omega)).2 (i % 8) (by omega)).symm
  · obtain ⟨hsmall, hbits⟩ := hbyte k hk
    exact System.eq_ioByte hsmall hbits

/-- On a console that was just started, a word of which the main processor has only one byte, which
says that it has. -/
theorem Session.reads_by_lanes_booted :
    let s := (Session.new {}).directBoot 0x02000000 0x02380000
    (s.read .arm9 .word 0x04000300 {}).2.1 = s ∧
      (s.read .arm9 .word 0x04000300 {}).1.toNat = ∑ k ∈ Finset.range 4,
        256 ^ k * (s.read .arm9 .byte (0x04000300 + UInt32.ofNat k) {}).1.toNat ∧
      (∀ k < 4, (s.read .arm9 .byte (0x04000300 + UInt32.ofNat k) {}).1.toNat =
        s.system.ioByte .arm9 (0x300 + k)) ∧
      s.system.ioByte .arm9 0x300 = 1 ∧ s.system.ioByte .arm9 0x301 = 0 := by
  intro s
  have hsettled : s.system.control.Settled :=
    ((SystemControl.settled_initial.write 9 1 0 0x0300000A).write 9 1 1 0x20).write 1 0 0 0x00052078
  have hopen : s.system.control.Open .arm9 false 0x04000300 := by
    intro _ tcm htakes
    cases tcm <;> exact absurd htakes (by decide)
  have haligned : Width.word.bytes.toNat ∣ (0x04000300 : UInt32).toNat := by decide
  have hio : (0x04000300 : UInt32).toNat / 2 ^ 24 = 4 := by decide
  obtain ⟨hsame, hsum, hbytes⟩ := reads_by_lanes s haligned hio
    (hsettled.uncovered haligned hio hopen) {} fun _ => {}
  exact ⟨hsame, hsum, hbytes, by decide, by decide⟩

end
end Handheld.Console
