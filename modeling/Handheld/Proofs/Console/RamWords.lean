import Handheld.Proofs.Console.FirmwareStub
import Handheld.Proofs.Console.Invariants
import Handheld.Proofs.Console.MemoryMap

/-!
# Words of memory

An aligned word of a memory is a `Cell`. A block of words that a processor finds at consecutive
addresses, to read and to write, consists of cells that are different from each other: every memory
repeats over a part of the map that is longer than any block of registers. So a block that is
stored is read back, and what a processor finds elsewhere is what it was.
-/

namespace Handheld.Console

open Word

/-- An aligned word of a memory. -/
structure Cell where
  region : Region
  offset : Nat
  aligned : 4 ∣ offset
  within : offset + 4 ≤ region.size

/-- Where an access to a word leads that ends there. -/
def Cell.target (cell : Cell) : Target := .memory cell.region cell.offset

/-- A byte of a memory is one of the word's. -/
def Cell.Covers (cell : Cell) (region : Region) (j : Nat) : Prop :=
  region = cell.region ∧ cell.offset ≤ j ∧ j < cell.offset + 4

theorem Cell.target_inj {cell other : Cell} (h : cell.target = other.target) : cell = other := by
  obtain ⟨region, offset, _, _⟩ := cell
  obtain ⟨region', offset', _, _⟩ := other
  cases h
  rfl

/-- Words that share a byte are the same. -/
theorem Cell.eq_of_covers {cell other : Cell} {region : Region} {j : Nat}
    (h : cell.Covers region j) (h' : other.Covers region j) : cell = other := by
  obtain ⟨hregion, hlow, hhigh⟩ := h
  obtain ⟨hregion', hlow', hhigh'⟩ := h'
  obtain ⟨a, ha⟩ := cell.aligned
  obtain ⟨b, hb⟩ := other.aligned
  have hoffset : cell.offset = other.offset := by omega
  refine Cell.target_inj ?_
  rw [Cell.target, Cell.target, ← hregion, ← hregion', hoffset]

/-! ## Stores to words -/

namespace Memory

variable {m : Memory} {cell other : Cell} {cells : List Cell} {values : List UInt32}

/-- The word that is in a cell. -/
def word (m : Memory) (cell : Cell) : UInt32 := m.read cell.region 4 cell.offset

def setWord (m : Memory) (cell : Cell) (value : UInt32) : Memory :=
  m.write cell.region 4 cell.offset value

/-- The memories after words were stored in cells. -/
def setWords (m : Memory) : List Cell → List UInt32 → Memory
  | cell :: cells, value :: values => (m.setWord cell value).setWords cells values
  | _, _ => m

/-- The memories agree on every byte outside some cells, and apart from that as well. -/
structure SameOutside (cells : List Cell) (m t : Memory) : Prop where
  bytes : ∀ region j, (∀ cell ∈ cells, ¬ cell.Covers region j) →
    t.read region 1 j = m.read region 1 j
  bootFlags : t.bootFlags = m.bootFlags

theorem Sized.setWord (h : m.Sized) (cell : Cell) (value : UInt32) : (m.setWord cell value).Sized :=
  fun r => (Memory.size_write ..).trans (h r)

theorem word_setWord_self (h : m.Sized) (cell : Cell) (value : UInt32) :
    (m.setWord cell value).word cell = value :=
  Memory.read_write (w := .word) h cell.within value

/-- A word depends on its bytes alone. -/
theorem word_congr {t : Memory} (h : ∀ j, cell.Covers cell.region j →
    t.read cell.region 1 j = m.read cell.region 1 j) : t.word cell = m.word cell := by
  refine Bytes.valueAt_congr fun j hlow hhigh => ?_
  have hbyte := congrArg UInt32.toNat (h j ⟨rfl, hlow, hhigh⟩)
  rw [Memory.read, Memory.read, Bytes.toNat_valueAt_one, Bytes.toNat_valueAt_one] at hbyte
  exact UInt8.toNat_inj.mp hbyte

theorem sameOutside_setWord (m : Memory) (cell : Cell) (value : UInt32) :
    SameOutside [cell] m (m.setWord cell value) where
  bytes _ _ hj := Memory.byte_write_of_apart m 4 value (hj cell (List.mem_singleton_self cell))
  bootFlags := Memory.bootFlags_write ..

theorem SameOutside.word {t : Memory} (h : SameOutside cells m t) (hcell : cell ∉ cells) :
    t.word cell = m.word cell :=
  word_congr fun _ hj => h.bytes _ _ fun _ hin hcovers => hcell (Cell.eq_of_covers hj hcovers ▸ hin)

theorem sameOutside_setWords (m : Memory) (cells : List Cell) (values : List UInt32) :
    SameOutside cells m (m.setWords cells values) := by
  induction cells generalizing m values with
  | nil => exact ⟨fun _ _ _ => rfl, rfl⟩
  | cons cell cells ih =>
    cases values with
    | nil => exact ⟨fun _ _ _ => rfl, rfl⟩
    | cons value values =>
      obtain ⟨hbytes, hflags⟩ := sameOutside_setWord m cell value
      obtain ⟨hbytes', hflags'⟩ := ih (m.setWord cell value) values
      refine ⟨fun region j hj => ?_, hflags'.trans hflags⟩
      obtain ⟨hfirst, hrest⟩ := List.forall_mem_cons.mp hj
      exact (hbytes' region j hrest).trans
        (hbytes region j (List.forall_mem_singleton.mpr hfirst))

/-- What was stored in different cells is found there. -/
theorem word_setWords (h : m.Sized) (hcells : cells.Nodup) (hlength : values.length = cells.length)
    {k : Nat} (hk : k < cells.length) :
    (m.setWords cells values).word cells[k] = values[k] := by
  induction cells generalizing m values k with
  | nil => exact absurd hk (Nat.not_lt_zero k)
  | cons cell cells ih =>
    obtain ⟨value, values, rfl⟩ := List.exists_cons_of_length_eq_add_one hlength
    obtain ⟨hfresh, hrest⟩ := List.nodup_cons.mp hcells
    cases k with
    | zero =>
      exact ((sameOutside_setWords _ cells values).word hfresh).trans
        (word_setWord_self h cell value)
    | succ k => exact ih (h.setWord cell value) hrest (by simpa using hlength) (by simpa using hk)

end Memory

/-! ## Words in the map -/

/-- A processor finds a cell at an address, to read it and to write it. -/
def RamAt (p : Processor) (s : System) (address : UInt32) (cell : Cell) : Prop :=
  ∀ write, s.target p (Address.alignDown address 4) write = cell.target

/-- A processor finds cells at consecutive words. -/
def RamFrom (p : Processor) (s : System) (address : UInt32) (cells : List Cell) : Prop :=
  ∀ k (hk : k < cells.length), RamAt p s (address + 4 * UInt32.ofNat k) cells[k]

/-- What a processor reads at an address is none of some cells. -/
def Apart (p : Processor) (s : System) (address : UInt32) (cells : List Cell) : Prop :=
  ∀ cell ∈ cells, s.target p (Address.alignDown address 4) false ≠ cell.target

variable {p : Processor} {s : System} {address : UInt32} {cell : Cell} {cells : List Cell}

theorem RamFrom.head (h : RamFrom p s address (cell :: cells)) : RamAt p s address cell := by
  have hzero := h 0 (Nat.succ_pos _)
  rwa [show address + 4 * UInt32.ofNat 0 = address from UInt32.add_zero address] at hzero

theorem RamFrom.tail (h : RamFrom p s address (cell :: cells)) :
    RamFrom p s (address + 4) cells := by
  intro k hk
  rw [add_word_index]
  exact h (k + 1) (Nat.succ_lt_succ hk)

/-- Only the control coprocessor decides where memory is found. -/
theorem RamFrom.congr {t : System} (h : RamFrom p s address cells)
    (hcontrol : t.control = s.control) : RamFrom p t address cells :=
  fun k hk write => (target_congr p hcontrol _ _).trans (h k hk write)

/-- What a processor has stored in a cell. -/
theorem stored_of_target (htarget : s.target p (Address.alignDown address 4) false = cell.target) :
    stored p s .word address = s.memory.word cell := by
  unfold stored read
  rw [BoardM.ask_bind]
  show Width.word.truncate _ = _
  dsimp only
  rw [show Width.word.bytes = 4 from rfl, htarget]
  rfl

/-! ## Different words -/

/-- Where a memory starts that does not start at a multiple of its size. -/
def SystemControl.startOf (c : SystemControl) : Region → Nat
  | .dataTcm => Tcm.data.base c
  | _ => 0

theorem SystemControl.Backs.offset_mod {c : SystemControl} {write : Bool} {a : Nat}
    {region : Region} {offset : Nat} (h : c.Backs p write a region offset) :
    c.startOf region ≤ a ∧ offset % 0x4000 = (a - c.startOf region) % 0x4000 := by
  cases h with
  | inst | main | shared | work =>
    exact ⟨Nat.zero_le _, Nat.mod_mod_of_dvd _ (by decide)⟩
  | data _ takes => exact ⟨takes.2.2.1, Nat.mod_mod _ _⟩

theorem SystemControl.Backs.four_dvd {c : SystemControl} {write : Bool} {a : Nat}
    {region : Region} {offset : Nat} (h : c.Backs p write a region offset) (ha : 4 ∣ a) :
    4 ∣ offset := by
  obtain ⟨hstart, hoffset⟩ := h.offset_mod
  have hfour : 4 ∣ c.startOf region := by
    cases region with
    | dataTcm => exact Dvd.dvd.mul_left (by decide) _
    | _ => exact Nat.dvd_zero 4
  omega

theorem four_dvd_alignDown (address : UInt32) : 4 ∣ (Address.alignDown address 4).toNat :=
  bytes_dvd_alignDown .word address

/-- An access to a word that leads to a memory leads to a cell. -/
theorem exists_cell (hsettled : s.control.Settled) {write : Bool} {region : Region} {offset : Nat}
    (htarget : s.target p (Address.alignDown address 4) write = .memory region offset) :
    ∃ cell : Cell, cell.target = .memory region offset := by
  have hbacks := (target_eq_memory_iff hsettled).mp htarget
  exact ⟨⟨region, offset, hbacks.four_dvd (four_dvd_alignDown address),
    SystemControl.Backs.within (w := .word) hbacks⟩, rfl⟩

/-- A block that is shorter than the memories does not meet itself. -/
theorem RamFrom.nodup (h : RamFrom p s address cells) (hsettled : s.control.Settled)
    (hlength : cells.length ≤ 0x1000) : cells.Nodup := by
  refine List.pairwise_iff_getElem.mpr fun i j hi hj hij heq => ?_
  have hbacks : ∀ k (hk : k < cells.length), s.control.Backs p false
      (Address.alignDown (address + 4 * UInt32.ofNat k) 4).toNat cells[k].region
        cells[k].offset := fun k hk => (target_eq_memory_iff hsettled).mp (h k hk false)
  have hplace : ∀ k < 0x1000, (Address.alignDown (address + 4 * UInt32.ofNat k) 4).toNat =
      (address.toNat + 4 * k) % 2 ^ 32 / 4 * 4 := by
    intro k hk
    have hk' : (UInt32.ofNat k).toNat = k := UInt32.toNat_ofNat_of_lt' (hk.trans (by decide))
    rw [Address.toNat_alignDown (k := 2) _ rfl, UInt32.toNat_add, UInt32.toNat_mul, hk']
    show (address.toNat + 4 * k % 2 ^ 32) % 2 ^ 32 / 4 * 4 = _
    omega
  -- Up to multiples of 16 KiB, an offset is the distance from where its memory starts. The two
  -- addresses differ by less than that, also across the end of the address space.
  obtain ⟨hstart, hoffset⟩ := (hbacks i hi).offset_mod
  obtain ⟨hstart', hoffset'⟩ := (hbacks j hj).offset_mod
  rw [hplace i (by omega)] at hstart hoffset
  rw [hplace j (by omega), ← heq] at hstart' hoffset'
  omega

/-! ## Loads and stores -/

/-- Device registers look at the boot flags of the memories alone. -/
theorem ioValue_withMemory {m : Memory} (h : m.bootFlags = s.memory.bootFlags) (r : IoRegister) :
    ({ s with memory := m } : System).ioValue p r = s.ioValue p r := by
  cases r with
  | bootFlag =>
    show (m.bootFlags.get p).toUInt32 = _
    rw [h]
    rfl
  | _ => rfl

/-- What is read apart from some cells does not change with them. -/
theorem Apart.stored_eq (h : Apart p s address cells) (hsettled : s.control.Settled) {m : Memory}
    (hm : Memory.SameOutside cells s.memory m) :
    stored p { s with memory := m } .word address = stored p s .word address := by
  have htarget' : ({ s with memory := m } : System).target p (Address.alignDown address 4) false =
      s.target p (Address.alignDown address 4) false := target_congr p rfl _ _
  cases htarget : s.target p (Address.alignDown address 4) false with
  | memory region offset =>
    obtain ⟨cell, hcell⟩ := exists_cell hsettled htarget
    -- Aligned words overlap only if they are the same, so this one lies outside.
    have hfresh : cell ∉ cells := fun hin => h cell hin (htarget.trans hcell.symm)
    rw [stored_of_target (htarget.trans hcell.symm),
      stored_of_target ((htarget'.trans htarget).trans hcell.symm)]
    exact hm.word hfresh
  | stub | unmapped | io =>
    unfold stored read
    rw [BoardM.ask_bind, BoardM.ask_bind]
    dsimp only
    rw [show Width.word.bytes = 4 from rfl, htarget', htarget]
    first
    | rfl
    | exact congrArg Width.word.truncate (congrArg Width.word.truncate
        (value_readIoFrom p _ _ _ _ _ fun r => ioValue_withMemory hm.bootFlags r))

/-- A word is stored in its cell, and nothing else changes. -/
theorem write_ram {b : Board System} (hsettled : b.system.control.Settled)
    (h : RamAt p b.system address cell) (value : UInt32) :
    ((core p).write .word address value b).2 =
      { b with system :=
          { b.system with memory := b.system.memory.setWord cell value } } := by
  have hwrite : (core p).write = write p := by cases p <;> rfl
  have hbacks : b.system.control.Backs p true
      (Address.alignDown address Width.word.bytes).toNat cell.region cell.offset :=
    (target_eq_memory_iff hsettled).mp (h true)
  rw [hwrite, write_of_backs hsettled hbacks]
  rfl

/-- A list of registers is stored in a block of cells. -/
theorem storeBlock_ram (value : Register → CpuState → UInt32) {list : List Register}
    (hlength : list.length = cells.length) (access : Access) {m : Machine System}
    (hsettled : m.system.control.Settled) (h : RamFrom p m.system address cells) :
    ((core p).storeBlock value list address access m).2.cpu = m.cpu ∧
      ((core p).storeBlock value list address access m).2.system =
        { m.system with
          memory := m.system.memory.setWords cells (list.map fun r => value r m.cpu) } := by
  induction list generalizing address cells access m with
  | nil =>
    rw [List.eq_nil_of_length_eq_zero hlength.symm]
    exact ⟨rfl, rfl⟩
  | cons r list ih =>
    obtain ⟨cell, cells, rfl⟩ := List.exists_cons_of_length_eq_add_one hlength.symm
    let waited := ((core p).wait .word address access m).2
    let first := ((core p).store .word address (value r m.cpu) access m).2
    have hcons : (core p).storeBlock value (r :: list) address access m =
        (core p).storeBlock value list (address + 4) Access.sequential first := rfl
    have hcpu : waited.cpu = m.cpu := (core_looking p).quiet.wait ..
    have hsystem : waited.system = m.system := (core_looking p).system_wait ..
    have hfirst : first.toBoard =
        { waited.toBoard with system :=
            { waited.system with memory := waited.system.memory.setWord cell (value r m.cpu) } } :=
      write_ram (b := waited.toBoard) (hsystem ▸ hsettled) (hsystem ▸ h.head) (value r m.cpu)
    have hfirstCpu : first.cpu = m.cpu := (congrArg Board.cpu hfirst).trans hcpu
    have hfirstSystem : first.system =
        { m.system with memory := m.system.memory.setWord cell (value r m.cpu) } := by
      rw [← hsystem]
      exact congrArg Board.system hfirst
    -- The first store moves no window, so the rest of the block is found where it was.
    obtain ⟨hkept, hstored⟩ := ih (Nat.succ_inj.mp hlength) Access.sequential
      (m := first) (by rw [hfirstSystem]; exact hsettled)
      (h.tail.congr (by rw [hfirstSystem]))
    rw [hcons]
    refine ⟨hkept.trans hfirstCpu, hstored.trans ?_⟩
    rw [hfirstCpu, hfirstSystem]
    rfl

end Handheld.Console
