import Mathlib
import Handheld.Console.Bus
import Handheld.Proofs.Console.Reading
import Handheld.Proofs.Console.Windows
import Handheld.Proofs.FlatMemory

/-!
# The memory map

Where an access to memory ends up, told by the numbers alone: a tightly coupled memory of the main
processor if its window takes the access, the instruction memory first, and behind the windows one
of the memories on the bus, repeated over its part of the map. `System.target` decides exactly
this, so every address of a memory has one backing byte, within the bounds of that memory.

From it follows that memory behaves as memory: what was written is read back, a write changes the
bytes that it goes to and no others, and the processors see each other's writes.
-/

namespace Handheld.Console

/-! ## Sizes -/

/-- The memories have their sizes. -/
def Memory.Sized (m : Memory) : Prop := ∀ r, (m.bytes r).size = r.size

theorem Memory.sized_initial : ({} : Memory).Sized := by
  intro r
  cases r with
  | main => exact emptyMain.property
  | shared => exact emptyShared.property
  | work => exact emptyWork.property
  | instTcm => exact emptyInstTcm.property
  | dataTcm => exact emptyDataTcm.property

/-- The memory behind a window. -/
def Tcm.region : Tcm → Region
  | .data => .dataTcm
  | .inst => .instTcm

namespace SystemControl

/-! ## Backing bytes -/

/-- No window takes the access, so it goes to the bus. Only the main processor has windows. -/
def Open (c : SystemControl) (p : Processor) (write : Bool) (address : Nat) : Prop :=
  p = .arm9 → ∀ tcm, ¬ c.Takes tcm write address

/-- Where the shared memory ends in a processor's map. The companion processor's own memory follows
it. -/
def sharedEnd : Processor → Nat
  | .arm7 => 0x03800000
  | .arm9 => 0x04000000

/-- The byte of a memory that backs an address for an access. -/
inductive Backs (c : SystemControl) : Processor → Bool → Nat → Region → Nat → Prop
  | inst {write : Bool} {address : Nat} (takes : c.Takes .inst write address) :
      Backs c .arm9 write address .instTcm (address % instTcmSize)
  | data {write : Bool} {address : Nat} (passes : ¬ c.Takes .inst write address)
      (takes : c.Takes .data write address) :
      Backs c .arm9 write address .dataTcm ((address - Tcm.base c .data) % dataTcmSize)
  | main {p : Processor} {write : Bool} {address : Nat} (bus : c.Open p write address)
      (low : 0x02000000 ≤ address) (high : address < 0x03000000) :
      Backs c p write address .main (address % mainSize)
  | shared {p : Processor} {write : Bool} {address : Nat} (bus : c.Open p write address)
      (low : 0x03000000 ≤ address)
      (high : address < sharedEnd p) :
      Backs c p write address .shared (address % sharedSize)
  | work {write : Bool} {address : Nat} (low : 0x03800000 ≤ address)
      (high : address < 0x04000000) :
      Backs c .arm7 write address .work (address % workSize)

end SystemControl

open SystemControl Word

variable {c : SystemControl} {p : Processor} {write : Bool} {address : UInt32} {region : Region}
  {offset : Nat}

theorem toNat_top (address : UInt32) : (address >>> 24).toNat = address.toNat / 2 ^ 24 := by
  rw [UInt32.toNat_shiftRight, Nat.shiftRight_eq_div_pow]
  rfl

theorem at_eq_memory_iff {r : Region} :
    r.at address = .memory region offset ↔ region = r ∧ offset = address.toNat % r.size := by
  unfold Region.at
  rw [Target.memory.injEq]
  exact and_congr eq_comm eq_comm

/-- Behind the windows the bus leads to the memory of that part of the map. -/
theorem busTarget_eq_memory_iff (bus : c.Open p write address.toNat) :
    busTarget p address = .memory region offset ↔
      c.Backs p write address.toNat region offset := by
  have htop := toNat_top address
  constructor
  · intro h
    unfold busTarget at h
    -- The rows of the map in the order of its definition; only the second to the fourth one lead to
    -- memories.
    split at h
    · cases h
    · obtain ⟨rfl, rfl⟩ := at_eq_memory_iff.mp h
      exact .main bus (by omega) (by omega)
    · by_cases hlow : address < 0x03800000
      · rw [if_pos hlow] at h
        rw [UInt32.lt_iff_toNat_lt] at hlow
        obtain ⟨rfl, rfl⟩ := at_eq_memory_iff.mp h
        exact .shared bus (by omega) hlow
      · rw [if_neg hlow] at h
        rw [UInt32.lt_iff_toNat_lt] at hlow
        have hbound : (0x03800000 : UInt32).toNat = 0x03800000 := rfl
        obtain ⟨rfl, rfl⟩ := at_eq_memory_iff.mp h
        exact .work (by omega) (by omega)
    · obtain ⟨rfl, rfl⟩ := at_eq_memory_iff.mp h
      exact .shared bus (by omega) (by show _ < 0x04000000; omega)
    · cases h
    · split at h <;> cases h
    · cases h
  · intro h
    generalize haddress : address.toNat = a at h
    cases h with
    | inst takes => exact absurd takes (haddress ▸ bus rfl .inst)
    | data passes takes => exact absurd takes (haddress ▸ bus rfl .data)
    | main _ low high =>
      have hpart : (address >>> 24).toNat = 2 := by omega
      unfold busTarget
      rw [hpart, ← haddress]
      cases p <;> rfl
    | shared _ low high =>
      cases p with
      | arm7 =>
        have hlow : address < 0x03800000 := UInt32.lt_iff_toNat_lt.mpr (haddress ▸ high)
        have hhigh : a < 0x03800000 := high
        have hpart : (address >>> 24).toNat = 3 := by omega
        unfold busTarget
        rw [hpart, ← haddress]
        exact if_pos hlow
      | arm9 =>
        have hhigh : a < 0x04000000 := high
        have hpart : (address >>> 24).toNat = 3 := by omega
        unfold busTarget
        rw [hpart, ← haddress]
        rfl
    | work low high =>
      have hnot : ¬ address < 0x03800000 := by
        rw [UInt32.lt_iff_toNat_lt, haddress]
        exact Nat.not_lt.mpr low
      have hpart : (address >>> 24).toNat = 3 := by omega
      unfold busTarget
      rw [hpart, ← haddress]
      exact if_neg hnot

theorem target_of_inst {s : System} (h : s.control.Settled)
    (takes : s.control.Takes .inst write address.toNat) :
    s.target .arm9 address write = .memory .instTcm (address.toNat % instTcmSize) := by
  obtain ⟨hit, hhit, hoffset⟩ := h.tcmOffset?_of_takes takes
  unfold System.target
  rw [hhit]
  exact congrArg (Target.memory .instTcm) hoffset

theorem target_of_data {s : System} (h : s.control.Settled)
    (passes : ¬ s.control.Takes .inst write address.toNat)
    (takes : s.control.Takes .data write address.toNat) :
    s.target .arm9 address write =
      .memory .dataTcm ((address.toNat - Tcm.base s.control .data) % dataTcmSize) := by
  obtain ⟨hit, hhit, hoffset⟩ := h.tcmOffset?_of_takes takes
  unfold System.target
  rw [h.tcmOffset?_of_passes passes, hhit]
  exact congrArg (Target.memory .dataTcm) hoffset

theorem target_of_open {s : System} (h : s.control.Settled)
    (bus : s.control.Open p write address.toNat) :
    s.target p address write = busTarget p address := by
  cases p with
  | arm7 => rfl
  | arm9 =>
    unfold System.target
    rw [h.tcmOffset?_of_passes (bus rfl .inst), h.tcmOffset?_of_passes (bus rfl .data)]

/-- An access that is not open is one of the main processor that a window takes. -/
theorem SystemControl.takes_of_not_open {n : Nat} (h : ¬ c.Open p write n) :
    p = .arm9 ∧ (c.Takes .inst write n ∨ ¬ c.Takes .inst write n ∧ c.Takes .data write n) := by
  refine ⟨by_contra fun hp => h fun heq => absurd heq hp, ?_⟩
  by_cases hinst : c.Takes .inst write n
  · exact .inl hinst
  · refine .inr ⟨hinst, by_contra fun hdata => h fun _ tcm => ?_⟩
    cases tcm with
    | data => exact hdata
    | inst => exact hinst

/-- The map leads to a memory exactly where one backs the address. -/
theorem target_eq_memory_iff {s : System} (h : s.control.Settled) :
    s.target p address write = .memory region offset ↔
      s.control.Backs p write address.toNat region offset := by
  by_cases bus : s.control.Open p write address.toNat
  · rw [target_of_open h bus]
    exact busTarget_eq_memory_iff bus
  · obtain ⟨rfl, hinst | ⟨hinst, hdata⟩⟩ := SystemControl.takes_of_not_open bus
    · rw [target_of_inst h hinst, Target.memory.injEq]
      constructor
      · rintro ⟨rfl, rfl⟩
        exact .inst hinst
      · rintro (_ | ⟨passes, -⟩ | ⟨bus', -, -⟩ | ⟨bus', -, -⟩ | _)
        · exact ⟨rfl, rfl⟩
        · exact absurd hinst passes
        · exact absurd bus' bus
        · exact absurd bus' bus
    · rw [target_of_data h hinst hdata, Target.memory.injEq]
      constructor
      · rintro ⟨rfl, rfl⟩
        exact .data hinst hdata
      · rintro (takes | _ | ⟨bus', -, -⟩ | ⟨bus', -, -⟩ | _)
        · exact absurd takes hinst
        · exact ⟨rfl, rfl⟩
        · exact absurd bus' bus
        · exact absurd bus' bus

/-- An address is backed by one byte. -/
theorem SystemControl.Backs.unique {address : Nat} {region' : Region} {offset' : Nat}
    (h : c.Backs p write address region offset) (h' : c.Backs p write address region' offset') :
    region = region' ∧ offset = offset' := by
  cases h with
  | inst takes =>
    cases h' with
    | inst => exact ⟨rfl, rfl⟩
    | data passes => exact absurd takes passes
    | main bus | shared bus => exact absurd takes (bus rfl .inst)
  | data passes takes =>
    cases h' with
    | inst takes' => exact absurd takes' passes
    | data => exact ⟨rfl, rfl⟩
    | main bus | shared bus => exact absurd takes (bus rfl .data)
  | main bus low high =>
    cases h' with
    | inst takes => exact absurd takes (bus rfl .inst)
    | data _ takes => exact absurd takes (bus rfl .data)
    | main => exact ⟨rfl, rfl⟩
    | shared _ low' => omega
    | work low' => omega
  | shared bus low high =>
    cases h' with
    | inst takes => exact absurd takes (bus rfl .inst)
    | data _ takes => exact absurd takes (bus rfl .data)
    | main _ _ high' => omega
    | shared => exact ⟨rfl, rfl⟩
    | work low' =>
      have hend : address < 0x03800000 := high
      omega
  | work low high =>
    cases h' with
    | main _ _ high' => omega
    | shared _ _ high' =>
      have hend : address < 0x03800000 := high'
      omega
    | work => exact ⟨rfl, rfl⟩

/-- What backs an address for writes also backs it for reads, unless it is behind a window in load
mode. -/
theorem SystemControl.Backs.read_of_write {address : Nat} (h : c.Backs p true address region offset)
    (load : ∀ tcm : Tcm, region = tcm.region → isBit c.control (tcm.enableBit + 1) = false) :
    c.Backs p false address region offset := by
  have hreads : ∀ tcm : Tcm, c.Takes tcm true address → region = tcm.region →
      c.Takes tcm false address :=
    fun tcm takes hregion => ⟨takes.1, .inr (load tcm hregion), takes.2.2⟩
  have hopen : c.Open p true address → c.Open p false address :=
    fun bus hp tcm takes => bus hp tcm takes.of_read
  cases h with
  | inst takes => exact .inst (hreads .inst takes rfl)
  | data passes takes =>
    exact .data (fun takes' => passes takes'.of_read) (hreads .data takes rfl)
  | main bus low high => exact .main (hopen bus) low high
  | shared bus low high => exact .shared (hopen bus) low high
  | work low high => exact .work low high

/-- Outside the windows both processors find the same memory in the lower part of the map. -/
theorem backs_common {address : Nat} (low : 0x02000000 ≤ address) (high : address < 0x03800000)
    (uncovered : ∀ tcm, ¬ c.Takes tcm true address) :
    ∃ region offset, ∀ p write, c.Backs p write address region offset := by
  have hopen : ∀ p write, c.Open p write address :=
    fun _ _ _ tcm takes => uncovered tcm ⟨takes.1, .inl rfl, takes.2.2⟩
  by_cases hmain : address < 0x03000000
  · exact ⟨.main, _, fun p write => .main (hopen p write) low hmain⟩
  · refine ⟨.shared, _, fun p write => .shared (hopen p write) (Nat.not_lt.mp hmain) ?_⟩
    cases p with
    | arm7 => exact high
    | arm9 => exact high.trans (by decide)

/-! ## Bounds -/

/-- The width of an access divides what is a multiple of four. -/
theorem bytes_dvd (w : Width) {n : Nat} (h : 2 ^ 2 ∣ n) : w.bytes.toNat ∣ n := by
  obtain ⟨k, hk, hbytes⟩ := w.bytes_eq_pow
  rw [hbytes]
  exact (Nat.pow_dvd_pow 2 hk).trans h

theorem bytes_dvd_alignDown (w : Width) (address : UInt32) :
    w.bytes.toNat ∣ (Address.alignDown address w.bytes).toNat := by
  obtain ⟨k, -, hbytes⟩ := w.bytes_eq_pow
  rw [Address.toNat_alignDown address hbytes, hbytes]
  exact Nat.dvd_mul_left _ _

/-- A multiple of the width ends before the next one. -/
theorem mod_add_le {n size a : Nat} (hpositive : 0 < size) (hsize : n ∣ size) (ha : n ∣ a) :
    a % size + n ≤ size := by
  obtain ⟨u, hu⟩ := (Nat.dvd_mod_iff hsize).mpr ha
  obtain ⟨v, rfl⟩ := hsize
  have hlt := Nat.mod_lt a hpositive
  rw [hu] at hlt ⊢
  have hstep : u + 1 ≤ v := Nat.lt_of_mul_lt_mul_left hlt
  calc n * u + n = n * (u + 1) := (Nat.mul_succ n u).symm
    _ ≤ n * v := Nat.mul_le_mul_left n hstep

/-- An access that is rounded down to its width ends within its memory. -/
theorem SystemControl.Backs.within {w : Width}
    (h : c.Backs p write (Address.alignDown address w.bytes).toNat region offset) :
    offset + w.bytes.toNat ≤ region.size := by
  have haligned := bytes_dvd_alignDown w address
  generalize (Address.alignDown address w.bytes).toNat = a at h haligned
  cases h with
  | inst => exact mod_add_le (by decide) (bytes_dvd w (by decide)) haligned
  | data =>
    have hbase : w.bytes.toNat ∣ Tcm.data.base c :=
      (bytes_dvd w (by decide : 2 ^ 2 ∣ 0x1000)).trans (Nat.dvd_mul_left _ _)
    exact mod_add_le (by decide) (bytes_dvd w (by decide)) (Nat.dvd_sub haligned hbase)
  | main | shared | work => exact mod_add_le (by decide) (bytes_dvd w (by decide)) haligned

/-! ## Bytes -/

theorem Memory.bytes_write (m : Memory) (region : Region) (count offset : Nat) (value : UInt32)
    (r : Region) :
    (m.write region count offset value).bytes r =
      if r = region then Bytes.setValue (m.bytes region) count offset value else m.bytes r := by
  cases region <;> cases r <;> rfl

theorem Memory.bootFlags_write (m : Memory) (region : Region) (count offset : Nat)
    (value : UInt32) : (m.write region count offset value).bootFlags = m.bootFlags := by
  cases region <;> rfl

/-- What was stored in a memory is read back. -/
theorem Memory.read_write {m : Memory} (hsized : m.Sized) {w : Width}
    (hwithin : offset + w.bytes.toNat ≤ region.size) (value : UInt32) :
    (m.write region w.bytes.toNat offset value).read region w.bytes.toNat offset =
      w.truncate value := by
  have hfour : w.bytes.toNat ≤ 4 := by cases w <;> decide
  rw [← UInt32.toNat_inj, w.toNat_truncate, Memory.read, Memory.bytes_write, if_pos rfl]
  exact Bytes.toNat_valueAt_setValue _ _ _ _ hfour (by rwa [hsized region])

/-- A store changes the bytes that it goes to, lowest first. -/
theorem Memory.toNat_byte_write {m : Memory} (hsized : m.Sized) {w : Width}
    (hwithin : offset + w.bytes.toNat ≤ region.size) (value : UInt32) {j : Nat}
    (hlow : offset ≤ j) (hhigh : j < offset + w.bytes.toNat) :
    ((m.write region w.bytes.toNat offset value).read region 1 j).toNat =
      value.toNat / 256 ^ (j - offset) % 256 := by
  rw [Memory.read, Memory.bytes_write, if_pos rfl, Bytes.toNat_valueAt_one]
  exact Bytes.toNat_byteAt_setValue _ _ _ _ _ (by rwa [hsized region]) hlow hhigh

/-- A store leaves every other byte alone. -/
theorem Memory.byte_write_of_apart (m : Memory) (count : Nat) (value : UInt32) {r : Region}
    {j : Nat} (hapart : ¬ (r = region ∧ offset ≤ j ∧ j < offset + count)) :
    (m.write region count offset value).read r 1 j = m.read r 1 j := by
  rw [← UInt32.toNat_inj, Memory.read, Memory.read, Memory.bytes_write,
    Bytes.toNat_valueAt_one, Bytes.toNat_valueAt_one]
  by_cases hregion : r = region
  · subst hregion
    have hplace : ¬ (offset ≤ j ∧ j < offset + count) := fun h => hapart ⟨rfl, h⟩
    rw [if_pos rfl, Bytes.byteAt_setValue _ _ _ _ _ (by omega)]
  · rw [if_neg hregion]

/-! ## Accesses -/

section Accesses

variable {w : Width} {b : Board System}

/-- Reading memory is reading its bytes, and changes nothing. -/
theorem read_of_backs (h : b.system.control.Settled)
    (backs : b.system.control.Backs p false (Address.alignDown address w.bytes).toNat region
      offset) :
    Console.read p w address b = (b.system.memory.read region w.bytes.toNat offset, b) := by
  have htarget := (target_eq_memory_iff h).mpr backs
  unfold Console.read
  rw [BoardM.ask_bind, htarget]
  rfl

/-- The board after a store. -/
def afterStore (b : Board System) (region : Region) (count offset : Nat) (value : UInt32) :
    Board System :=
  { b with
    system := { b.system with memory := b.system.memory.write region count offset value } }

/-- Writing memory is storing the bytes, and changes nothing else. -/
theorem write_of_backs (h : b.system.control.Settled)
    (backs : b.system.control.Backs p true (Address.alignDown address w.bytes).toNat region
      offset) (value : UInt32) :
    Console.write p w address value b = ((), afterStore b region w.bytes.toNat offset value) := by
  have htarget := (target_eq_memory_iff h).mpr backs
  unfold Console.write
  rw [BoardM.ask_bind, htarget]
  rfl

/-- Device registers do not look at the memories. -/
theorem ioValue_afterStore (b : Board System) (count : Nat) (value : UInt32) (q : Processor)
    (r : IoRegister) :
    (afterStore b region count offset value).system.ioValue q r = b.system.ioValue q r := by
  cases r with
  | bootFlag =>
    show (((b.system.memory.write region count offset value).bootFlags.get q).toUInt32) = _
    rw [Memory.bootFlags_write]
    rfl
  | _ => rfl

/-- What is read of device registers depends on their values alone. -/
theorem value_readIoFrom {e : Board System} (q : Processor) (left skip : Nat)
    (a shift total : UInt32) (h : ∀ r, e.system.ioValue q r = b.system.ioValue q r) :
    (readIoFrom q left skip a shift total e).1 = (readIoFrom q left skip a shift total b).1 := by
  induction left generalizing skip a shift total b e with
  | zero => rfl
  | succ left ih =>
    cases skip with
    | succ skip => exact ih skip _ _ _ h
    | zero =>
      unfold readIoFrom
      cases IoRegister.at? q a with
      | none => exact ih 0 _ _ _ h
      | some r =>
        show (readIoFrom q left _ _ _ (total ||| (e.system.ioValue q r >>> _) <<< _) e).1 =
          (readIoFrom q left _ _ _ (total ||| (b.system.ioValue q r >>> _) <<< _) b).1
        rw [h r]
        exact ih _ _ _ _ h

/-- A store shows in what is read only where memory is read that it changed. -/
theorem value_read_afterStore (count : Nat) (value : UInt32) (q : Processor) (other : UInt32)
    (h : ∀ r j, b.system.target q (Address.alignDown other w.bytes) false = .memory r j →
      (b.system.memory.write region count offset value).read r w.bytes.toNat j =
        b.system.memory.read r w.bytes.toNat j) :
    (Console.read q w other (afterStore b region count offset value)).1 =
      (Console.read q w other b).1 := by
  have hsame : (afterStore b region count offset value).system.target q
      (Address.alignDown other w.bytes) false =
        b.system.target q (Address.alignDown other w.bytes) false := by
    cases q <;> rfl
  unfold Console.read
  rw [BoardM.ask_bind, BoardM.ask_bind, hsame]
  cases htarget : b.system.target q (Address.alignDown other w.bytes) false with
  | memory r j => exact h r j htarget
  | stub | unmapped => rfl
  | io =>
    exact congrArg w.truncate
      (value_readIoFrom q _ _ _ _ _ fun r => ioValue_afterStore b count value q r)

end Accesses

/-! ## Memory behaves as memory -/

/-- **Memory behaves as memory.** For every configuration of the windows that register writes lead
to and every access of either processor:

1. the map leads to a memory exactly where one backs the address, this is one memory at one place,
   and the access stays within it; a read gives the bytes there;
2. what is read next at the same width, through any address of either processor that leads to the
   same place, is the value written. That is so for the address itself unless the write went to a
   window in load mode;
3. a byte that is read next, at any address and by either processor, is one of the bytes written,
   lowest first, if such a byte backs its address, and else what it was;
4. what a processor writes to the main or the shared memory, the other reads at the same address,
   unless a window covers it. -/
theorem memory_behaves (b : Board System) (hsized : b.system.memory.Sized)
    (hconfigured : b.system.control.Configured) (p : Processor) (w : Width)
    (address value : UInt32) :
    let c := b.system.control
    let aligned := Address.alignDown address w.bytes
    let after := (Console.write p w address value b).2
    (∀ write region offset,
      (b.system.target p aligned write = .memory region offset ↔
        c.Backs p write aligned.toNat region offset) ∧
      (c.Backs p write aligned.toNat region offset →
        offset + w.bytes.toNat ≤ (b.system.memory.bytes region).size ∧
        ∀ region' offset', c.Backs p write aligned.toNat region' offset' →
          region' = region ∧ offset' = offset)) ∧
    (∀ region offset, c.Backs p false aligned.toNat region offset →
      Console.read p w address b = (b.system.memory.read region w.bytes.toNat offset, b)) ∧
    (∀ region offset, c.Backs p true aligned.toNat region offset →
      (∀ q other, c.Backs q false (Address.alignDown other w.bytes).toNat region offset →
        (Console.read q w other after).1 = w.truncate value) ∧
      ((∀ tcm : Tcm, region = tcm.region → isBit c.control (tcm.enableBit + 1) = false) →
        (Console.read p w address after).1 = w.truncate value) ∧
      (∀ q other j, c.Backs q false other.toNat region j → offset ≤ j →
        j < offset + w.bytes.toNat →
        (Console.read q .byte other after).1.toNat = value.toNat / 256 ^ (j - offset) % 256) ∧
      (∀ q other,
        (¬ ∃ j, c.Backs q false other.toNat region j ∧ offset ≤ j ∧
          j < offset + w.bytes.toNat) →
        (Console.read q .byte other after).1 = (Console.read q .byte other b).1)) ∧
    (0x02000000 ≤ aligned.toNat → aligned.toNat < 0x03800000 →
      (∀ tcm, ¬ c.Takes tcm true aligned.toNat) →
      ∀ q, (Console.read q w address after).1 = w.truncate value) := by
  intro c aligned after
  have hsettled : c.Settled := hconfigured.settled
  have hafter : ∀ {region offset}, c.Backs p true aligned.toNat region offset →
      after = afterStore b region w.bytes.toNat offset value :=
    fun backs => congrArg Prod.snd (write_of_backs hsettled backs value)
  have hread : ∀ {region offset}, c.Backs p true aligned.toNat region offset →
      ∀ q other, c.Backs q false (Address.alignDown other w.bytes).toNat region offset →
        (Console.read q w other after).1 = w.truncate value := by
    intro region offset backs q other backs'
    rw [hafter backs, read_of_backs (b := afterStore b region w.bytes.toNat offset value) hsettled
      backs']
    exact Memory.read_write hsized backs.within value
  have hbyte : ∀ other : UInt32, Address.alignDown other Width.byte.bytes = other := by
    intro other
    rw [← UInt32.toNat_inj, Address.toNat_alignDown (k := 0) other rfl]
    omega
  refine ⟨fun write region offset => ⟨target_eq_memory_iff hsettled, fun backs => ⟨?_, ?_⟩⟩,
    fun region offset backs => read_of_backs hsettled backs,
    fun region offset backs => ⟨hread backs, ?_, ?_, ?_⟩, ?_⟩
  · rw [hsized region]
    exact backs.within
  · exact fun region' offset' backs' => backs'.unique backs
  · exact fun load => hread backs p address (backs.read_of_write load)
  · intro q other j backs' hlow hhigh
    have hother : c.Backs q false (Address.alignDown other Width.byte.bytes).toNat region j := by
      rwa [hbyte other]
    rw [hafter backs, read_of_backs (b := afterStore b region w.bytes.toNat offset value) hsettled
      hother]
    exact Memory.toNat_byte_write hsized backs.within value hlow hhigh
  · intro q other hapart
    rw [hafter backs]
    refine value_read_afterStore _ _ q other fun r j htarget => ?_
    rw [hbyte other] at htarget
    have hother := (target_eq_memory_iff hsettled).mp htarget
    refine Memory.byte_write_of_apart _ _ _ ?_
    rintro ⟨rfl, hlow, hhigh⟩
    exact hapart ⟨j, hother, hlow, hhigh⟩
  · intro low high uncovered q
    obtain ⟨region, offset, backs⟩ := backs_common low high uncovered
    exact hread (backs p true) q address (backs q false)

/-- With the data window in load mode the main processor stores a word in the main memory, through
an address that is not aligned. The companion processor reads the word, and a byte of it through a
mirror. -/
theorem memory_behaves_across :
    let control := (SystemControl.initial.write 1 0 0 0x00072000).1
    let b : Board System := { cpu := {}, system := { control }, log := {} }
    let after := (Console.write .arm9 .word 0x02000103 0x12345678 b).2
    b.system.memory.Sized ∧ control.Configured ∧
      (Console.read .arm7 .word 0x02000103 after).1 = 0x12345678 ∧
      (Console.read .arm7 .byte 0x02400102 after).1.toNat = 0x34 := by
  intro control b after
  have hconfigured : control.Configured := .write .initial 1 0 0 0x00072000
  obtain ⟨-, -, hmemory, hshared⟩ :=
    memory_behaves b Memory.sized_initial hconfigured .arm9 .word 0x02000103 0x12345678
  have haligned : (Address.alignDown 0x02000103 Width.word.bytes).toNat = 0x02000100 := rfl
  have huncovered : ∀ tcm, ¬ control.Takes tcm true 0x02000100 := by
    intro tcm
    cases tcm <;> decide
  have hwritten : control.Backs .arm9 true 0x02000100 .main 0x100 :=
    .main (fun _ => huncovered) (by decide) (by decide)
  have hmirror : control.Backs .arm7 false 0x02400102 .main 0x102 :=
    .main nofun (by decide) (by decide)
  rw [haligned] at hmemory hshared
  obtain ⟨-, -, hbyte, -⟩ := hmemory .main 0x100 hwritten
  exact ⟨Memory.sized_initial, hconfigured,
    hshared (by decide) (by decide) huncovered .arm7,
    hbyte .arm7 0x02400102 0x102 hmirror (by decide) (by decide)⟩

end Handheld.Console
