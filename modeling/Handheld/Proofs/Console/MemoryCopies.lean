import Mathlib
import Handheld.Console.Firmware.Call
import Handheld.Proofs.Console.Invariants
import Handheld.Proofs.Console.MemoryMap

/-!
# Copying and filling by the firmware

Two firmware calls copy a block of memory, or fill one with copies of a unit. Where both blocks lie
in the main memory and have no byte in common, the target ends up as the source was before, and
nothing else changes: `Firmware.copies_exact`.

The loop of the calls is one pass over the main memory, `Memory.copied`, once the map is out of the
way. Its bytes are found by induction on the number of units.
-/

namespace Handheld

/-! ## Bytes of a value -/

/-- The digits of a value are its bytes, the lowest first. -/
theorem Bytes.toNat_valueAt_digit (bytes : ByteArray) {n : Nat} (i : Nat) (hn : n ≤ 4) {k : Nat}
    (hk : k < n) :
    (valueAt bytes n i).toNat / 256 ^ k % 256 = (byteAt bytes (i + k)).toNat := by
  induction n generalizing i k with
  | zero => omega
  | succ n ih =>
    have hrest := toNat_valueAt_lt bytes (i + 1) (by omega : n ≤ 4)
    have hpow : 256 ^ n ≤ 256 ^ 3 := Nat.pow_le_pow_right (by norm_num) (by omega)
    have hbyte : (byteAt bytes i).toNat < 256 := (byteAt bytes i).toNat_lt
    rw [toNat_valueAt_succ bytes n i (by omega)]
    cases k with
    | zero =>
      rw [pow_zero, Nat.div_one, Nat.add_mul_mod_self_left, Nat.mod_eq_of_lt hbyte]
      rfl
    | succ k =>
      have hplace : i + (k + 1) = i + 1 + k := by omega
      rw [pow_succ', ← Nat.div_div_eq_div_mul, Nat.add_mul_div_left _ _ (by norm_num),
        Nat.div_eq_of_lt hbyte, Nat.zero_add, ih (i + 1) (by omega) (by omega), hplace]

namespace Console

open Address Word

/-- Within a unit a memory does not repeat. -/
theorem mod_add_of_dvd {n size a k : Nat} (hpositive : 0 < size) (hsize : n ∣ size) (ha : n ∣ a)
    (hk : k < n) : (a + k) % size = a % size + k := by
  have hfits := mod_add_le hpositive hsize ha
  rw [Nat.add_mod, Nat.mod_eq_of_lt (by omega : k < size), Nat.mod_eq_of_lt (by omega)]

/-! ## Blocks of the main memory -/

namespace Memory

variable {m m' : Memory} {w : Width} {s t : Nat}

/-- The byte of the main memory at an address. -/
def mainByte (m : Memory) (address : Nat) : UInt32 := m.read .main 1 (address % mainSize)

/-- Memories that agree on all bytes but those of a block of the main memory. -/
structure SameBut (start size : Nat) (m m' : Memory) : Prop where
  bytes : ∀ region j, ¬ (region = .main ∧ ∃ k < size, j = (start + k) % mainSize) →
    m'.read region 1 j = m.read region 1 j
  sizes : ∀ region, (m'.bytes region).size = (m.bytes region).size
  bootFlags : m'.bootFlags = m.bootFlags

/-- Copy a unit within the main memory. -/
def copyUnit (w : Width) (s t : Nat) (m : Memory) : Memory :=
  m.write .main w.bytes.toNat (t % mainSize) (m.read .main w.bytes.toNat (s % mainSize))

/-- Copy some units, or fill with the first one. -/
def copied (w : Width) (fill : Bool) : (count s t : Nat) → Memory → Memory
  | 0, _, _, m => m
  | count + 1, s, t, m =>
    copied w fill count (if fill then s else s + w.bytes.toNat) (t + w.bytes.toNat)
      (m.copyUnit w s t)

theorem sameBut_copyUnit (ht : w.bytes.toNat ∣ t) :
    SameBut t w.bytes.toNat m (m.copyUnit w s t) where
  bytes region j hj := by
    apply byte_write_of_apart
    rintro ⟨rfl, hlow, hhigh⟩
    apply hj
    refine ⟨rfl, j - t % mainSize, by omega, ?_⟩
    rw [mod_add_of_dvd (by decide) (bytes_dvd w (by decide)) ht (by omega)]
    omega
  sizes _ := size_write ..
  bootFlags := bootFlags_write ..

/-- The bytes of a unit are copied. -/
theorem mainByte_copyUnit (hsized : m.Sized) (hs : w.bytes.toNat ∣ s) (ht : w.bytes.toNat ∣ t)
    {k : Nat} (hk : k < w.bytes.toNat) :
    (m.copyUnit w s t).mainByte (t + k) = m.mainByte (s + k) := by
  have hsize : w.bytes.toNat ∣ mainSize := bytes_dvd w (by decide)
  have hwithin : t % mainSize + w.bytes.toNat ≤ Region.main.size :=
    mod_add_le (by decide) hsize ht
  have hfour : w.bytes.toNat ≤ 4 := by cases w <;> decide
  unfold mainByte
  rw [mod_add_of_dvd (by decide) hsize hs hk, mod_add_of_dvd (by decide) hsize ht hk,
    ← UInt32.toNat_inj]
  unfold copyUnit
  rw [toNat_byte_write hsized hwithin _ (by omega) (by omega), Nat.add_sub_cancel_left, read, read,
    Bytes.toNat_valueAt_digit _ _ hfour hk, Bytes.toNat_valueAt_one]

theorem SameBut.sized {start size : Nat} (h : SameBut start size m m') (hsized : m.Sized) :
    m'.Sized := fun region => (h.sizes region).trans (hsized region)

theorem SameBut.mainByte {start size : Nat} (h : SameBut start size m m') {address : Nat}
    (hapart : ∀ k < size, address % mainSize ≠ (start + k) % mainSize) :
    m'.mainByte address = m.mainByte address := by
  apply h.bytes
  rintro ⟨-, k, hk, hplace⟩
  exact hapart k hk hplace

/-- A block and the one behind it. -/
theorem SameBut.append {start size later : Nat} {m'' : Memory} (h : SameBut start size m m')
    (h' : SameBut (start + size) later m' m'') : SameBut start (size + later) m m'' where
  bytes region j hj := by
    have hlater : ¬ (region = .main ∧ ∃ k < later, j = (start + size + k) % mainSize) := by
      rintro ⟨hregion, k, hk, hplace⟩
      exact hj ⟨hregion, size + k, by omega, by rw [hplace, Nat.add_assoc]⟩
    have hfirst : ¬ (region = .main ∧ ∃ k < size, j = (start + k) % mainSize) := by
      rintro ⟨hregion, k, hk, hplace⟩
      exact hj ⟨hregion, k, by omega, hplace⟩
    rw [h'.bytes region j hlater, h.bytes region j hfirst]
  sizes region := (h'.sizes region).trans (h.sizes region)
  bootFlags := h'.bootFlags.trans h.bootFlags

/-- A block that has no byte in common with another one is shorter than the memory. -/
theorem size_lt_of_apart {size sourceSize : Nat} (hsome : 0 < sourceSize)
    (hapart : ∀ j < sourceSize, ∀ k < size, (s + j) % mainSize ≠ (t + k) % mainSize) :
    size < mainSize := by
  by_contra hlong
  -- Else it goes once round the memory, and has every byte.
  have hbyte : (s + 0) % mainSize = (t + (s + (mainSize - t % mainSize)) % mainSize) % mainSize := by
    unfold mainSize
    omega
  have hplace : (s + (mainSize - t % mainSize)) % mainSize < mainSize := Nat.mod_lt _ (by decide)
  exact hapart 0 hsome _ (by omega) hbyte

/-! ### A pass over a block -/

/-- How many units of the source a pass reads: the first one if it fills. -/
def unitsRead (fill : Bool) (count : Nat) : Nat := if fill then min count 1 else count

/-- Where in the source block a byte of the target block comes from. -/
def origin (w : Width) (fill : Bool) (k : Nat) : Nat := if fill then k % w.bytes.toNat else k

theorem origin_of_lt {fill : Bool} {k : Nat} (hk : k < w.bytes.toNat) : origin w fill k = k := by
  unfold origin
  split
  · exact Nat.mod_eq_of_lt hk
  · rfl

/-- A byte of the target comes from a byte that is read. -/
theorem origin_lt {fill : Bool} {count k : Nat} (hk : k < count * w.bytes.toNat) :
    origin w fill k < unitsRead fill count * w.bytes.toNat := by
  have hpositive : 0 < w.bytes.toNat := by cases w <;> decide
  unfold origin unitsRead
  cases fill with
  | false => exact hk
  | true =>
    have hcount : min count 1 = 1 := by
      cases count with
      | zero => omega
      | succ count => omega
    rw [if_pos rfl, if_pos rfl, hcount, Nat.one_mul]
    exact Nat.mod_lt k hpositive

/-- The bytes behind the first unit are those of the pass that is left. -/
theorem origin_behind (w : Width) (fill : Bool) (s k : Nat) :
    s + origin w fill (w.bytes.toNat + k) =
      (if fill then s else s + w.bytes.toNat) + origin w fill k := by
  unfold origin
  cases fill with
  | false => exact (Nat.add_assoc _ _ _).symm
  | true => rw [if_pos rfl, if_pos rfl, if_pos rfl, Nat.add_mod_left]

/-- **A pass copies its block**, if the block has no byte in common with what is read. -/
theorem copied_block {fill : Bool} {count : Nat} (hsized : m.Sized) (hs : w.bytes.toNat ∣ s)
    (ht : w.bytes.toNat ∣ t) (hsmall : count * w.bytes.toNat ≤ mainSize)
    (hapart : ∀ j < count * w.bytes.toNat, ∀ k < count * w.bytes.toNat,
      (s + origin w fill j) % mainSize ≠ (t + k) % mainSize) :
    (∀ k < count * w.bytes.toNat,
        (m.copied w fill count s t).mainByte (t + k) = m.mainByte (s + origin w fill k)) ∧
      SameBut t (count * w.bytes.toNat) m (m.copied w fill count s t) := by
  induction count generalizing s t m with
  | zero =>
    refine ⟨?_, fun _ _ _ => rfl, fun _ => rfl, rfl⟩
    intro k hk
    omega
  | succ count ih =>
    have hsize : (count + 1) * w.bytes.toNat = w.bytes.toNat + count * w.bytes.toNat := by ring
    have hfirst := sameBut_copyUnit (m := m) (s := s) ht
    rw [hsize] at hsmall hapart ⊢
    have hnext : w.bytes.toNat ∣ if fill then s else s + w.bytes.toNat := by
      split
      · exact hs
      · exact Nat.dvd_add hs (Nat.dvd_refl _)
    obtain ⟨hcopied, hlater⟩ := ih (hfirst.sized hsized) hnext (Nat.dvd_add ht (Nat.dvd_refl _))
      (by omega) (by
        intro j hj k hk
        rw [← origin_behind, Nat.add_assoc]
        exact hapart _ (by omega) _ (by omega))
    refine ⟨?_, hfirst.append hlater⟩
    intro k hk
    by_cases hunit : k < w.bytes.toNat
    · -- The units behind leave the first one alone.
      have hkept : (m.copied w fill (count + 1) s t).mainByte (t + k) =
          (m.copyUnit w s t).mainByte (t + k) := by
        apply hlater.mainByte
        intro j hj
        unfold mainSize at hsmall ⊢
        omega
      rw [origin_of_lt hunit]
      exact hkept.trans (mainByte_copyUnit hsized hs ht hunit)
    · obtain ⟨j, rfl⟩ := Nat.exists_eq_add_of_le (not_lt.mp hunit)
      have hread := hcopied j (by omega)
      rw [← origin_behind, Nat.add_assoc] at hread
      refine hread.trans (hfirst.mainByte ?_)
      intro k hk
      exact hapart _ (by omega) _ (by omega)

end Memory

/-! ## Blocks in the map -/

/-- A block of addresses lies in the main memory, and no window takes a byte of it. -/
def SystemControl.InMain (c : SystemControl) (p : Processor) (write : Bool) (start size : Nat) :
    Prop :=
  ∀ k < size, 0x02000000 ≤ start + k ∧ start + k < 0x03000000 ∧ c.Open p write (start + k)

section

variable {c : SystemControl} {p : Processor} {write : Bool} {start size later : Nat}

theorem SystemControl.InMain.backs (h : c.InMain p write start size) (hsome : 0 < size) :
    c.Backs p write start .main (start % mainSize) := by
  obtain ⟨hlow, hhigh, hopen⟩ := h 0 hsome
  exact .main hopen hlow hhigh

theorem SystemControl.InMain.behind (h : c.InMain p write start (size + later)) :
    c.InMain p write (start + size) later := by
  intro k hk
  have hplace := h (size + k) (by omega)
  rwa [← Nat.add_assoc] at hplace

/-- The companion processor has no windows. -/
theorem SystemControl.InMain.of_bounds (hlow : 0x02000000 ≤ start)
    (hhigh : start + size ≤ 0x03000000) : c.InMain .arm7 write start size := by
  intro k hk
  exact ⟨by omega, by omega, nofun⟩

/-- The address of the next unit, rounded down. -/
theorem toNat_alignDown_next (w : Width) {address : UInt32}
    (h : (alignDown address w.bytes).toNat < 0x03000000) :
    (alignDown (address + w.bytes) w.bytes).toNat =
      (alignDown address w.bytes).toNat + w.bytes.toNat := by
  obtain ⟨k, -, hbytes⟩ := w.bytes_eq_pow
  have hdown := toNat_alignDown address hbytes
  have hnext := toNat_alignDown (address + w.bytes) hbytes
  have hlt := address.toNat_lt
  rw [← hbytes] at hdown hnext
  rw [UInt32.toNat_add] at hnext
  rcases w.toNat_bytes with hw | hw | hw <;> rw [hw] at hdown hnext ⊢ <;> omega

end

namespace Firmware

open BoardM

variable {p : Processor} {w : Width} {fill : Bool} {b : Board System}

/-- Where the map leads to the main memory, the loop is a pass over it. -/
theorem copyUnits_eq (hsettled : b.system.control.Settled) {count : Nat} {source target : UInt32}
    (hsource : b.system.control.InMain p false (alignDown source w.bytes).toNat
      (Memory.unitsRead fill count * w.bytes.toNat))
    (htarget : b.system.control.InMain p true (alignDown target w.bytes).toNat
      (count * w.bytes.toNat)) :
    copyUnits p w fill count source target b =
      ((), { b with system := { b.system with
        memory := b.system.memory.copied w fill count (alignDown source w.bytes).toNat
          (alignDown target w.bytes).toNat } }) := by
  have hpositive : 0 < w.bytes.toNat := by cases w <;> decide
  induction count generalizing source target b with
  | zero => rfl
  | succ count ih =>
    let s := (alignDown source w.bytes).toNat
    let t := (alignDown target w.bytes).toNat
    have hsize : (count + 1) * w.bytes.toNat = w.bytes.toNat + count * w.bytes.toNat := by ring
    rw [hsize] at htarget
    have hread : 0 < Memory.unitsRead fill (count + 1) * w.bytes.toNat := by
      apply Nat.mul_pos _ hpositive
      unfold Memory.unitsRead
      split <;> omega
    have hvalue := read_of_backs (b := b) hsettled (hsource.backs hread)
    have hstore := write_of_backs (b := b) hsettled (htarget.backs (by omega))
      (b.system.memory.read .main w.bytes.toNat (s % mainSize))
    let later := if fill then source else source + w.bytes
    have hstep : copyUnits p w fill (count + 1) source target b =
        copyUnits p w fill count later (target + w.bytes)
          (write p w target (read p w source b).1 (read p w source b).2).2 := rfl
    rw [hstep, hvalue, hstore]
    -- What is left reads on behind the unit, or reads it again.
    have hlater : (alignDown later w.bytes).toNat = if fill then s else s + w.bytes.toNat := by
      cases fill with
      | true => rfl
      | false => exact toNat_alignDown_next w (hsource 0 hread).2.1
    have hnext : (alignDown (target + w.bytes) w.bytes).toNat = t + w.bytes.toNat :=
      toNat_alignDown_next w (htarget 0 (by omega)).2.1
    have hrest : b.system.control.InMain p false (alignDown later w.bytes).toNat
        (Memory.unitsRead fill count * w.bytes.toNat) := by
      rw [hlater]
      cases fill with
      | true =>
        have hfewer : Memory.unitsRead true count ≤ Memory.unitsRead true (count + 1) := by
          show min count 1 ≤ min (count + 1) 1
          omega
        intro k hk
        exact hsource k (hk.trans_le (Nat.mul_le_mul_right _ hfewer))
      | false =>
        have hall : Memory.unitsRead false (count + 1) * w.bytes.toNat =
            w.bytes.toNat + Memory.unitsRead false count * w.bytes.toNat := hsize
        rw [hall] at hsource
        exact hsource.behind
    refine (ih (b := afterStore b ..) hsettled hrest (hnext ▸ htarget.behind)).trans ?_
    rw [hlater, hnext]
    rfl

/-! ### What the registers ask for -/

/-- A copy that a call is asked to do: units of a width, from one address of the map to another. A
fill repeats the first unit. -/
structure Transfer where
  width : Width
  fill : Bool
  count : Nat
  source : Nat
  target : Nat
  deriving DecidableEq, Repr

namespace Transfer

/-- The copy that the registers describe. Words are chosen by bit 26 of r2 or by the fast call,
whose count is rounded up to a multiple of eight. Bit 24 fills. -/
def of (fast : Bool) (s : CpuState) : Transfer :=
  let control := (s.reg 2).toNat
  let width := if fast || control.testBit 26 then .word else .half
  { width
    fill := control.testBit 24
    count := if fast then (control % 2 ^ 21 + 7) / 8 * 8 else control % 2 ^ 21
    source := (s.reg 0).toNat / width.bytes.toNat * width.bytes.toNat
    target := (s.reg 1).toNat / width.bytes.toNat * width.bytes.toNat }

/-- How many bytes are written. -/
def size (a : Transfer) : Nat := a.count * a.width.bytes.toNat

/-- How many bytes of the source have a part in the copy. -/
def sourceSize (a : Transfer) : Nat := Memory.unitsRead a.fill a.count * a.width.bytes.toNat

/-- Both blocks lie in the main memory, and no byte of it is in both. -/
structure Fits (a : Transfer) (c : SystemControl) (p : Processor) : Prop where
  source : c.InMain p false a.source a.sourceSize
  target : c.InMain p true a.target a.size
  apart : ∀ j < a.sourceSize, ∀ k < a.size,
    (a.source + j) % mainSize ≠ (a.target + k) % mainSize

/-- The target block does not go once round the memory. -/
theorem Fits.size_le {a : Transfer} {c : SystemControl} (h : a.Fits c p) : a.size ≤ mainSize := by
  rcases Nat.eq_zero_or_pos a.size with hnone | hsome
  · rw [hnone]
    exact Nat.zero_le _
  · have hread : Memory.origin a.width a.fill 0 < a.sourceSize := Memory.origin_lt hsome
    exact (Memory.size_lt_of_apart (by omega) h.apart).le

end Transfer

theorem toNat_unitCount (control : UInt32) (fast : Bool) :
    (unitCount control fast).toNat =
      if fast then (control.toNat % 2 ^ 21 + 7) / 8 * 8 else control.toNat % 2 ^ 21 := by
  have hcount : (control &&& 0x1FFFFF).toNat = control.toNat % 2 ^ 21 := by
    rw [UInt32.toNat_and]
    exact Nat.and_two_pow_sub_one_eq_mod control.toNat 21
  cases fast with
  | false => exact hcount
  | true =>
    have height : (8 : UInt32).toNat = 2 ^ 3 := rfl
    have hblocks := toNat_alignDown ((control &&& 0x1FFFFF) + 7) height
    have hseven : ((control &&& 0x1FFFFF) + 7).toNat = control.toNat % 2 ^ 21 + 7 := by
      rw [UInt32.toNat_add, hcount]
      show (control.toNat % 2 ^ 21 + 7) % 2 ^ 32 = _
      omega
    rw [hseven] at hblocks
    exact hblocks

theorem toNat_callCycles {count : UInt32} : (count.toUInt64 * 2 + 20).toNat =
    2 * count.toNat + 20 := by
  have hcount := count.toNat_lt
  rw [UInt64.toNat_add, UInt64.toNat_mul, UInt32.toNat_toUInt64]
  show (count.toNat * 2 % 2 ^ 64 + 20) % 2 ^ 64 = _
  omega

/-- A call is its loop, behind a log line. -/
theorem serveNumber_copy (p : Processor) (fast : Bool) (b : Board System) :
    let control := b.cpu.reg 2
    let w : Width := if fast || isBit control 26 then .word else .half
    serveNumber p (if fast then 0x0C else 0x0B) b =
      ((unitCount control fast).toUInt64 * 2 + 20,
        (copyUnits p w (isBit control 24) (unitCount control fast).toNat (b.cpu.reg 0)
          (b.cpu.reg 1)
          { b with
            log := b.log.add (.biosCall p (if fast then "CpuFastSet" else "CpuSet")) }).2) := by
  cases p <;> cases fast <;> rfl

/-- Where both blocks lie in the main memory, a call is a pass over it. -/
theorem serveNumber_eq_copied {p : Processor} {fast : Bool} {b : Board System}
    (hsettled : b.system.control.Settled)
    (hfits : (Transfer.of fast b.cpu).Fits b.system.control p) :
    let a := Transfer.of fast b.cpu
    serveNumber p (if fast then 0x0C else 0x0B) b =
      ((unitCount (b.cpu.reg 2) fast).toUInt64 * 2 + 20,
        { b with
          system := { b.system with
            memory := b.system.memory.copied a.width a.fill a.count a.source a.target }
          log := b.log.add (.biosCall p (if fast then "CpuFastSet" else "CpuSet")) }) := by
  intro a
  let control := b.cpu.reg 2
  have hwidth : (if fast || isBit control 26 then Width.word else .half) = a.width := by
    rw [isBit_eq_testBit control (by decide)]
    rfl
  have hfill : isBit control 24 = a.fill := isBit_eq_testBit control (by decide)
  have hcount : (unitCount control fast).toNat = a.count := toNat_unitCount control fast
  have hplace : ∀ address : UInt32, (alignDown address a.width.bytes).toNat =
      address.toNat / a.width.bytes.toNat * a.width.bytes.toNat := by
    intro address
    obtain ⟨k, -, hbytes⟩ := a.width.bytes_eq_pow
    rw [toNat_alignDown address hbytes, hbytes]
  have hsource : (alignDown (b.cpu.reg 0) a.width.bytes).toNat = a.source := hplace _
  have htarget : (alignDown (b.cpu.reg 1) a.width.bytes).toNat = a.target := hplace _
  let entered : Board System :=
    { b with log := b.log.add (.biosCall p (if fast then "CpuFastSet" else "CpuSet")) }
  have hpass := copyUnits_eq (b := entered) hsettled (hsource.symm ▸ hfits.source)
    (htarget.symm ▸ hfits.target)
  rw [hsource, htarget] at hpass
  refine (serveNumber_copy p fast b).trans ?_
  rw [hwidth, hfill, hcount]
  exact congrArg (Prod.mk _) (congrArg Prod.snd hpass)

/-- **Memory is copied and filled exactly.** Let a call be asked to copy between blocks of the main
memory that have no byte in common, mirrors included. Then

1. it takes 20 cycles and two for each unit;
2. each byte of the target block becomes what the byte of the source block at the same place was,
   or at the place in the first unit if it fills;
3. all other bytes of the memories stay, and
4. so do the processor, all devices and the queue. The log has a line more. -/
theorem copies_exact (p : Processor) (fast : Bool) (b : Board System)
    (hsized : b.system.memory.Sized) (hconfigured : b.system.control.Configured)
    (hfits : (Transfer.of fast b.cpu).Fits b.system.control p) :
    let a := Transfer.of fast b.cpu
    let outcome := serveNumber p (if fast then 0x0C else 0x0B) b
    let after := outcome.2.system.memory
    outcome.1.toNat = 2 * a.count + 20 ∧
      (∀ k < a.size, after.mainByte (a.target + k) =
        b.system.memory.mainByte (a.source + Memory.origin a.width a.fill k)) ∧
      Memory.SameBut a.target a.size b.system.memory after ∧
      outcome.2 =
        { b with
          system := { b.system with memory := after }
          log := b.log.add (.biosCall p (if fast then "CpuFastSet" else "CpuSet")) } := by
  intro a outcome after
  have hcall : outcome = _ := serveNumber_eq_copied hconfigured.settled hfits
  have hafter : after = b.system.memory.copied a.width a.fill a.count a.source a.target :=
    congrArg (·.2.system.memory) hcall
  have hapart : ∀ j < a.size, ∀ k < a.size,
      (a.source + Memory.origin a.width a.fill j) % mainSize ≠ (a.target + k) % mainSize :=
    fun j hj k hk => hfits.apart _ (Memory.origin_lt hj) k hk
  obtain ⟨hbytes, hframe⟩ := Memory.copied_block hsized (Nat.dvd_mul_left a.width.bytes.toNat _)
    (Nat.dvd_mul_left a.width.bytes.toNat _) hfits.size_le hapart
  rw [hafter]
  refine ⟨?_, hbytes, hframe, congrArg Prod.snd hcall⟩
  have hcount : (unitCount (b.cpu.reg 2) fast).toNat = a.count := toNat_unitCount _ fast
  rw [hcall, ← hcount]
  exact toNat_callCycles

/-- The companion processor fills three half words behind a mirror with the one that its source
points into. The call takes 26 cycles. -/
theorem copies_exact_fill :
    let memory := ({} : Memory).write .main 2 0x1000 0xABCD
    let cpu := ((({} : CpuState).setReg 0 0x02001001).setReg 1 0x02402000).setReg 2 0x01000003
    let b : Board System := { cpu, system := { memory }, log := {} }
    let outcome := serveNumber .arm7 0x0B b
    memory.Sized ∧ (Transfer.of false cpu).Fits SystemControl.initial .arm7 ∧
      outcome.1.toNat = 26 ∧ outcome.2.cpu = cpu ∧
      ∀ k < 6, (outcome.2.system.memory.mainByte (0x02402000 + k)).toNat =
        if k % 2 = 0 then 0xCD else 0xAB := by
  intro memory cpu b outcome
  have hsized : memory.Sized := fun region => (Memory.size_write ..).trans (Memory.sized_initial _)
  have hasked : Transfer.of false cpu =
      { width := .half, fill := true, count := 3, source := 0x02001000, target := 0x02402000 } := by
    decide
  have hfits : (Transfer.of false cpu).Fits SystemControl.initial .arm7 := by
    rw [hasked]
    exact ⟨.of_bounds (by decide) (by decide), .of_bounds (by decide) (by decide), by decide⟩
  obtain ⟨hcycles, hbytes, -, hrest⟩ :=
    copies_exact .arm7 false b hsized .initial hfits
  have hbytes' : ∀ k < 6, outcome.2.system.memory.mainByte (0x02402000 + k) =
      memory.mainByte (0x02001000 + k % 2) := by
    rw [hasked] at hbytes
    exact hbytes
  refine ⟨hsized, hfits, ?_, congrArg (·.cpu) hrest, ?_⟩
  · rw [hasked] at hcycles
    exact hcycles
  · intro k hk
    have hlow : (0x02001000 + k % 2) % mainSize = 0x1000 + k % 2 := by
      unfold mainSize
      omega
    rw [hbytes' k hk, Memory.mainByte, hlow]
    refine (Memory.toNat_byte_write Memory.sized_initial (w := .half) (by decide) 0xABCD
      (by omega) ?_).trans ?_
    · show 0x1000 + k % 2 < 0x1000 + 2
      omega
    · rw [Nat.add_sub_cancel_left]
      revert k
      decide

end Firmware
end Console
end Handheld
