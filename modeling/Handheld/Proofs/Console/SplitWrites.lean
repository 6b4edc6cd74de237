import Mathlib
import Handheld.Proofs.Console.RegisterLanes

/-!
# Writes in parts

A word that is written to the device registers, its two halves and its four bytes, the lower ones
first, have the same effect, and a write leaves alone what it does not cover:
`Session.writes_by_lanes`. The exception are the three registers that forget, of which the theorem
says what happens instead.

Nothing here depends on the range of a clock, so the sessions are all that a console can come to.
-/

namespace Handheld.Console

open IoRegister SystemControl Word Address

/-! ## What holds of every session -/

theorem System.regular_initial (config : Config) : System.Regular { config } :=
  ⟨List.nodup_nil, fun p => by cases p <;> exact UInt16.zero_and⟩

theorem Session.Attained.regular {s : Session} (h : s.Attained) : s.system.Regular :=
  System.invariant_regular.attained System.regular_initial h

theorem Session.Attained.settled {s : Session} (h : s.Attained) : s.system.control.Settled :=
  invariant_settled.attained (fun _ => settled_initial) h

/-! ## The device registers behind the windows -/

section Map

variable {c : SystemControl} {p : Processor} {write : Bool} {address : UInt32}

/-- A window takes all bytes of a word or none. -/
theorem takes_byte_iff {tcm : Tcm} {n j : Nat} (hn : 4 ∣ n) (hj : j < 4) (hsmall : n < 0xFFFFFFFC) :
    c.Takes tcm write (n + j) ↔ c.Takes tcm write n := by
  have hbase : 4 ∣ tcm.base c := by
    cases tcm with
    | data => exact (by decide : 4 ∣ 0x1000).trans (Nat.dvd_mul_left _ _)
    | inst => exact Nat.dvd_zero 4
  have hspan : 4 ∣ tcm.span c := (by decide : 4 ∣ 512).trans (Nat.dvd_mul_right _ _)
  unfold SystemControl.Takes Tcm.limit
  refine and_congr_right fun _ => and_congr_right fun _ => ?_
  omega

/-- Where no window takes the access, device registers are reached. -/
theorem target_io {s : System} (h : s.control.Settled) (hio : address.toNat / 2 ^ 24 = 4)
    (hopen : s.control.Open p write address.toNat) : s.target p address write = .io := by
  have htop : (address >>> 24).toNat = 4 := (toNat_top address).trans hio
  rw [target_of_open h hopen]
  unfold busTarget
  rw [htop]
  cases p <;> rfl

/-- Else one of the tightly coupled memories is. -/
theorem target_devices {s : System} (h : s.control.Settled) (hio : address.toNat / 2 ^ 24 = 4)
    (p : Processor) (write : Bool) :
    (s.control.Open p write address.toNat ∧ s.target p address write = .io) ∨
      ∃ region offset, s.control.Backs p write address.toNat region offset ∧
        s.target p address write = .memory region offset := by
  by_cases hopen : s.control.Open p write address.toNat
  · exact .inl ⟨hopen, target_io h hio hopen⟩
  · right
    obtain ⟨rfl, hinst | ⟨hinst, hdata⟩⟩ := takes_of_not_open hopen
    · exact ⟨_, _, .inst hinst, target_of_inst h hinst⟩
    · exact ⟨_, _, .data hinst hdata, target_of_data h hinst hdata⟩

/-- Multiples of four lie four bytes apart also in a memory that repeats. -/
theorem add_mod_of_dvd {n size j : Nat} (hn : 4 ∣ n) (hsize : 4 ∣ size) (hpositive : 0 < size)
    (hj : j < 4) : (n + j) % size = n % size + j := by
  have hfits := mod_add_le hpositive hsize hn
  rw [Nat.add_mod, Nat.mod_eq_of_lt (by omega : j < size), Nat.mod_eq_of_lt (by omega)]

/-- The bytes of a word are backed by neighbouring bytes. -/
theorem SystemControl.Backs.byte {n j : Nat} {region : Region} {offset : Nat}
    (h : c.Backs p write n region offset) (hn : 4 ∣ n) (hj : j < 4) (hio : n / 2 ^ 24 = 4) :
    c.Backs p write (n + j) region (offset + j) := by
  have htakes : ∀ tcm : Tcm, c.Takes tcm write (n + j) ↔ c.Takes tcm write n :=
    fun tcm => takes_byte_iff hn hj (by omega)
  cases h with
  | inst takes =>
    have hplace := add_mod_of_dvd hn (by decide : 4 ∣ instTcmSize) (by decide) hj
    rw [← hplace]
    exact .inst ((htakes .inst).mpr takes)
  | data passes takes =>
    have hbase : 4 ∣ Tcm.data.base c := (by decide : 4 ∣ 0x1000).trans (Nat.dvd_mul_left _ _)
    have hlow : Tcm.data.base c ≤ n := takes.2.2.1
    have hplace :=
      add_mod_of_dvd (Nat.dvd_sub hn hbase) (by decide : 4 ∣ dataTcmSize) (by decide) hj
    rw [← hplace, ← Nat.sub_add_comm hlow]
    exact .data (mt (htakes .inst).mp passes) ((htakes .data).mpr takes)
  | main _ low high => omega
  | shared _ low high =>
    have hend : n < 0x04000000 := by
      cases p with
      | arm7 => exact high.trans (by decide)
      | arm9 => exact high
    omega
  | work low high => omega

/-- The bytes of a word lead where the word does. -/
theorem target_byte {s : System} (h : s.control.Settled) (haligned : 4 ∣ address.toNat)
    (hio : address.toNat / 2 ^ 24 = 4) {j : Nat} (hj : j < 4) {later : UInt32}
    (hlater : later.toNat = address.toNat + j) :
    (s.target p address write = .io → s.target p later write = .io) ∧
      ∀ region offset, s.target p address write = .memory region offset →
        s.target p later write = .memory region (offset + j) := by
  constructor
  · intro htarget
    rcases target_devices h hio p write with ⟨hopen, -⟩ | ⟨region, offset, -, hmemory⟩
    · refine target_io h (by omega) fun hp tcm takes => ?_
      rw [hlater] at takes
      exact hopen hp tcm ((takes_byte_iff haligned hj (by omega)).mp takes)
    · rw [htarget] at hmemory
      cases hmemory
  · intro region offset htarget
    have hbacks := (target_eq_memory_iff h).mp htarget
    refine (target_eq_memory_iff h).mpr ?_
    rw [hlater]
    exact hbacks.byte haligned hj hio

end Map

/-! ## Writes without the log -/

/-- What a write to a processor's memory map does. -/
def writeEffect (p : Processor) (w : Width) (address value : UInt32) (x : Parts) : Parts :=
  match x.2.target p (Address.alignDown address w.bytes) true with
  | .memory region offset =>
    (x.1, { x.2 with memory := x.2.memory.write region w.bytes.toNat offset value })
  | .io =>
    ioEffect p w.bytes.toNat 0 (Address.alignDown address w.bytes &&& 0xFFFFFF) (w.truncate value)
      (w.truncate 0xFFFFFFFF) x
  | .stub _ | .unmapped => x

theorem parts_write (p : Processor) (w : Width) (address value : UInt32) (b : Board System) :
    parts (write p w address value b).2 = writeEffect p w address value (parts b) := by
  have hparts : (parts b).2 = b.system := rfl
  unfold writeEffect write
  rw [BoardM.ask_bind, hparts]
  cases b.system.target p (Address.alignDown address w.bytes) true with
  | memory | stub | unmapped => rfl
  | io => exact parts_writeIoFrom ..

namespace Session

/-- A processor of a session and the devices. -/
def partsOf (s : Session) (p : Processor) : Parts := (s.cpus.get p, s.system)

/-- The session with a processor and the devices replaced. -/
def withParts (s : Session) (p : Processor) (x : Parts) : Session :=
  { s with cpus := s.cpus.set p x.1, system := x.2 }

@[simp] theorem partsOf_withParts (s : Session) (p : Processor) (x : Parts) :
    (s.withParts p x).partsOf p = x := by
  show ((s.cpus.set p x.1).get p, x.2) = x
  rw [PerProcessor.get_set_self]

@[simp] theorem withParts_withParts (s : Session) (p : Processor) (x y : Parts) :
    (s.withParts p x).withParts p y = s.withParts p y := by
  unfold withParts
  rw [PerProcessor.set_set]

/-- A read leaves the session as it is. -/
theorem read_fst (s : Session) (p : Processor) (w : Width) (address : UInt32) (log : Log) :
    (s.read p w address log).2.1 = s := by
  let board : Board System := { cpu := s.cpus.get p, system := s.system, log }
  show { s with
    cpus := s.cpus.set p (Console.read p w address board).2.cpu
    system := (Console.read p w address board).2.system } = s
  rw [(looks_read p w address).cpu, (looks_read p w address).system, PerProcessor.set_get]

theorem write_fst (s : Session) (p : Processor) (w : Width) (address value : UInt32) (log : Log) :
    (s.write p w address value log).1 =
      s.withParts p (writeEffect p w address value (s.partsOf p)) :=
  congrArg (s.withParts p)
    (parts_write p w address value { cpu := s.cpus.get p, system := s.system, log })

/-- Write the parts of a value that have some width, one after the other, the lowest first. -/
def writeParts (p : Processor) (w : Width) :
    (count : Nat) → (address value : UInt32) → Session → Log → Session × Log
  | 0, _, _, s, log => (s, log)
  | count + 1, address, value, s, log =>
    let (s, log) := s.write p w address value log
    writeParts p w count (address + w.bytes) (value >>> (8 * w.bytes)) s log

end Session

/-- What the parts of a value do. -/
def partsEffect (p : Processor) (w : Width) :
    (count : Nat) → (address value : UInt32) → Parts → Parts
  | 0, _, _, x => x
  | count + 1, address, value, x =>
    partsEffect p w count (address + w.bytes) (value >>> (8 * w.bytes))
      (writeEffect p w address value x)

theorem Session.writeParts_fst (s : Session) (p : Processor) (w : Width) (count : Nat)
    (address value : UInt32) (log : Log) :
    (s.writeParts p w count address value log).1 =
      s.withParts p (partsEffect p w count address value (s.partsOf p)) := by
  induction count generalizing s address value log with
  | zero =>
    show s = { s with cpus := s.cpus.set p (s.cpus.get p) }
    rw [PerProcessor.set_get]
  | succ count ih =>
    refine (ih (s.write p w address value log).1 ..).trans ?_
    rw [write_fst, partsOf_withParts, withParts_withParts, partsEffect]

/-! ## Words, halves and bytes -/

section Words

variable {p : Processor} {w : Width} {address later a value mask : UInt32} {x : Parts}

theorem control_ioEffect (left skip : Nat) :
    (ioEffect p left skip a value mask x).2.control = x.2.control := by
  induction left generalizing skip a value mask x with
  | zero => rfl
  | succ left ih =>
    cases skip with
    | succ skip => exact ih skip
    | zero =>
      cases hr : writableAt? p a with
      | none =>
        rw [ioEffect_none hr]
        exact ih 0
      | some r =>
        rw [ioEffect_some hr]
        exact (ih _).trans (System.control_writeIo ..)

/-- Where an access leads is settled by the control coprocessor. -/
theorem target_after {s t : System} {target : Target} {write : Bool}
    (hcontrol : t.control = s.control) (h : s.target p address write = target) :
    t.target p address write = target := by
  rw [← h]
  unfold System.target
  rw [hcontrol]

/-- The offset of an address in the register area. -/
theorem toNat_area (n : UInt32) : (n &&& 0xFFFFFF).toNat = n.toNat % 2 ^ 24 := by
  rw [UInt32.toNat_and]
  exact Nat.and_two_pow_sub_one_eq_mod n.toNat 24

theorem area_add {n k : UInt32} (h : n.toNat % 2 ^ 24 + k.toNat < 2 ^ 24) :
    (n + k) &&& 0xFFFFFF = (n &&& 0xFFFFFF) + k := by
  have hn := n.toNat_lt
  rw [← UInt32.toNat_inj, toNat_area, UInt32.toNat_add, UInt32.toNat_add, toNat_area]
  omega

theorem toNat_mask (w : Width) : (w.truncate 0xFFFFFFFF).toNat = 2 ^ (8 * w.bytes.toNat) - 1 := by
  cases w <;> rfl

theorem testBit_truncate (w : Width) (n : UInt32) {i : Nat} (hi : i < 8 * w.bytes.toNat) :
    (w.truncate n).toNat.testBit i = n.toNat.testBit i := by
  have hbase : 256 ^ w.bytes.toNat = 2 ^ (8 * w.bytes.toNat) := (pow_mul 2 8 _).symm
  rw [w.toNat_truncate, hbase, Nat.testBit_mod_two_pow, decide_eq_true hi, Bool.true_and]

/-- Writing a part of a word that leads to the device registers. -/
theorem writeEffect_part (h : x.2.control.Settled) (haligned : 4 ∣ address.toNat)
    (hio : address.toNat / 2 ^ 24 = 4) (htarget : x.2.target p address true = .io) {j : Nat}
    (hj : j < 4) (hlater : later.toNat = address.toNat + j) (hw : w.bytes.toNat ∣ later.toNat)
    (value : UInt32) :
    writeEffect p w later value x =
      ioEffect p w.bytes.toNat 0 (later &&& 0xFFFFFF) value (w.truncate 0xFFFFFFFF) x := by
  obtain ⟨k, -, hbytes⟩ := w.bytes_eq_pow
  have hdown : Address.alignDown later w.bytes = later := Address.alignDown_of_dvd hbytes hw
  unfold writeEffect
  rw [hdown, (target_byte h haligned hio hj hlater).1 htarget]
  exact ioEffect_congr 0 (toNat_mask w) fun i hi => testBit_truncate w value hi

/-- The bytes of a word that leads to the device registers. -/
theorem partsEffect_byte (h : x.2.control.Settled) (haligned : 4 ∣ address.toNat)
    (hio : address.toNat / 2 ^ 24 = 4) (htarget : x.2.target p address true = .io) {count j : Nat}
    (hj : j + count ≤ 4) (hlater : later.toNat = address.toNat + j) :
    partsEffect p .byte count later value x =
      bytesEffect p count (later &&& 0xFFFFFF) value x := by
  -- The induction is on the bytes that are left. They lead where the word did, since writes to
  -- registers leave the windows alone.
  induction count generalizing j later value x with
  | zero => rfl
  | succ count ih =>
    have hfirst := writeEffect_part (w := .byte) h haligned hio htarget (by omega : j < 4) hlater
      (Nat.one_dvd _) value
    cases count with
    | zero => exact hfirst
    | succ count =>
      have hone : (1 : UInt32).toNat = 1 := rfl
      have hnext : (later + 1).toNat = later.toNat + 1 := toNat_add_one (by omega)
      have harea : (later + 1) &&& 0xFFFFFF = (later &&& 0xFFFFFF) + 1 := area_add (by omega)
      have hcontrol : (ioEffect p 1 0 (later &&& 0xFFFFFF) value 0xFF x).2.control = x.2.control :=
        control_ioEffect 1 0
      show partsEffect p .byte (count + 1) (later + 1) (value >>> 8)
          (writeEffect p .byte later value x) =
        bytesEffect p (count + 1) ((later &&& 0xFFFFFF) + 1) (value >>> 8)
          (ioEffect p 1 0 (later &&& 0xFFFFFF) value 0xFF x)
      rw [hfirst, ← harea]
      exact ih (hcontrol ▸ h) (target_after hcontrol htarget) (by omega : j + 1 + (count + 1) ≤ 4)
        (by omega)

/-- The halves of a word that leads to the device registers. -/
theorem partsEffect_half (h : x.2.control.Settled) (haligned : 4 ∣ address.toNat)
    (hio : address.toNat / 2 ^ 24 = 4) (htarget : x.2.target p address true = .io) :
    partsEffect p .half 2 address value x =
      ioEffect p 2 0 ((address &&& 0xFFFFFF) + 2) (value >>> 16) 0xFFFF
        (ioEffect p 2 0 (address &&& 0xFFFFFF) value 0xFFFF x) := by
  have htwo : (2 : UInt32).toNat = 2 := rfl
  have hnext : (address + 2).toNat = address.toNat + 2 := toNat_add_two (by omega)
  have hdvd : 2 ∣ address.toNat := (by decide : 2 ∣ 4).trans haligned
  have hfirst := writeEffect_part (w := .half) h haligned hio htarget (by decide : 0 < 4) rfl
    hdvd value
  have hcontrol : (ioEffect p 2 0 (address &&& 0xFFFFFF) value 0xFFFF x).2.control =
      x.2.control := control_ioEffect 2 0
  have harea : (address + 2) &&& 0xFFFFFF = (address &&& 0xFFFFFF) + 2 := area_add (by omega)
  show writeEffect p .half (address + 2) (value >>> 16) (writeEffect p .half address value x) = _
  rw [hfirst, ← harea]
  refine writeEffect_part (hcontrol ▸ h) haligned hio (target_after hcontrol htarget)
    (by decide : 2 < 4) hnext ?_ _
  show 2 ∣ (address + 2).toNat
  omega

/-! ### Memory -/

/-- The parts with other contents of the memories. -/
def Parts.withMemory (x : Parts) (memory : Memory) : Parts := (x.1, { x.2 with memory })

/-- Writing a part of a word that leads to a memory. -/
theorem writeEffect_part_memory (h : x.2.control.Settled) (haligned : 4 ∣ address.toNat)
    (hio : address.toNat / 2 ^ 24 = 4) {region : Region} {offset : Nat}
    (htarget : x.2.target p address true = .memory region offset) {j : Nat} (hj : j < 4)
    (hlater : later.toNat = address.toNat + j) (hw : w.bytes.toNat ∣ later.toNat)
    (memory : Memory) :
    writeEffect p w later value (Parts.withMemory x memory) =
      Parts.withMemory x (memory.write region w.bytes.toNat (offset + j) value) := by
  obtain ⟨k, -, hbytes⟩ := w.bytes_eq_pow
  have hdown : Address.alignDown later w.bytes = later := Address.alignDown_of_dvd hbytes hw
  have hfound : (Parts.withMemory x memory).2.target p later true = .memory region (offset + j) :=
    target_after (s := x.2) rfl ((target_byte h haligned hio hj hlater).2 region offset htarget)
  unfold writeEffect
  rw [hdown, hfound]
  rfl

/-- The first byte of a store can be stored on its own, before the others. -/
theorem Memory.write_succ (m : Memory) (region : Region) (count offset : Nat) (value : UInt32) :
    m.write region (count + 1) offset value =
      (m.write region 1 offset value).write region count (offset + 1) (value >>> 8) := by
  cases region <;> rfl

/-- The bytes of a word that leads to a memory. -/
theorem partsEffect_byte_memory (h : x.2.control.Settled) (haligned : 4 ∣ address.toNat)
    (hio : address.toNat / 2 ^ 24 = 4) {region : Region} {offset : Nat}
    (htarget : x.2.target p address true = .memory region offset) {count j : Nat}
    (hj : j + count ≤ 4) (hlater : later.toNat = address.toNat + j) (memory : Memory) :
    partsEffect p .byte count later value (Parts.withMemory x memory) =
      Parts.withMemory x (memory.write region count (offset + j) value) := by
  induction count generalizing j later value memory with
  | zero => cases region <;> rfl
  | succ count ih =>
    have hnext : (later + 1).toNat = later.toNat + 1 := toNat_add_one (by omega)
    show partsEffect p .byte count (later + 1) (value >>> 8)
      (writeEffect p .byte later value (Parts.withMemory x memory)) = _
    rw [writeEffect_part_memory (w := .byte) h haligned hio htarget (by omega : j < 4) hlater
      (Nat.one_dvd _), memory.write_succ region count]
    exact ih (by omega : j + 1 + count ≤ 4) (by omega) _

/-- To a memory a word is the same as its halves and its bytes. -/
theorem partsEffect_memory (h : x.2.control.Settled) (haligned : 4 ∣ address.toNat)
    (hio : address.toNat / 2 ^ 24 = 4) {region : Region} {offset : Nat}
    (htarget : x.2.target p address true = .memory region offset) (value : UInt32) :
    partsEffect p .half 2 address value x = partsEffect p .byte 4 address value x ∧
      writeEffect p .word address value x = partsEffect p .half 2 address value x := by
  have hnext : (address + 2).toNat = address.toNat + 2 := toNat_add_two (by omega)
  have hdvd : 2 ∣ address.toNat := (by decide : 2 ∣ 4).trans haligned
  have hsplit : x.2.memory.write region 4 offset value =
      (x.2.memory.write region 2 offset value).write region 2 (offset + 2) (value >>> 16) := by
    rw [x.2.memory.write_succ region 3, x.2.memory.write_succ region 1, Memory.write_succ _ _ 2,
      shiftRight_sixteen]
  have hword : writeEffect p .word address value x =
      Parts.withMemory x (x.2.memory.write region 4 offset value) :=
    writeEffect_part_memory (w := .word) h haligned hio htarget (by decide : 0 < 4) rfl haligned
      x.2.memory
  have hbytes : partsEffect p .byte 4 address value x =
      Parts.withMemory x (x.2.memory.write region 4 offset value) :=
    partsEffect_byte_memory h haligned hio htarget (by decide : 0 + 4 ≤ 4) rfl x.2.memory
  have hfirst : writeEffect p .half address value x =
      Parts.withMemory x (x.2.memory.write region 2 offset value) :=
    writeEffect_part_memory (w := .half) h haligned hio htarget (by decide : 0 < 4) rfl hdvd
      x.2.memory
  have hhalves : partsEffect p .half 2 address value x =
      Parts.withMemory x (x.2.memory.write region 4 offset value) := by
    show writeEffect p .half (address + 2) (value >>> 16) (writeEffect p .half address value x) = _
    rw [hfirst, hsplit]
    refine writeEffect_part_memory (w := .half) h haligned hio htarget (by decide : 2 < 4) hnext
      ?_ _
    show 2 ∣ (address + 2).toNat
    omega
  exact ⟨hhalves.trans hbytes.symm, hword.trans hhalves.symm⟩

/-! ### Registers -/

/-- A register that forgets takes a whole word. -/
theorem writableAt?_start {r : IoRegister} {b : UInt32} (hr : writableAt? p b = some r)
    (hforgets : r.rewrittenBits ≠ 0) (haligned : 4 ∣ a.toNat) (hlow : a.toNat ≤ b.toNat)
    (hhigh : b.toNat < a.toNat + 4) :
    writableAt? p a = some r ∧ r.start = a.toNat ∧ r.size = 4 := by
  obtain ⟨hmem, hwritable, hfrom, hto⟩ := writableAt?_eq_some_iff.mp hr
  have hsize : r.size = 4 := by
    cases r <;> first | rfl | exact absurd rfl hforgets
  have hdvd : 4 ∣ r.start := hsize ▸ size_dvd_start r hmem
  have hstart : r.start = a.toNat := by omega
  exact ⟨writableAt?_eq_some_iff.mpr ⟨hmem, hwritable, by omega, by omega⟩, hstart, hsize⟩

/-- Without a register that forgets a word of the device registers is its halves and its bytes. -/
theorem ioEffect_parts (hx : x.2.Regular) (ha : a.toNat + 4 < 2 ^ 32)
    (hkeeps : ∀ b : UInt32, a.toNat ≤ b.toNat → b.toNat < a.toNat + 4 →
      ∀ r, writableAt? p b = some r → r.rewrittenBits = 0) (value : UInt32) :
    ioEffect p 4 0 a value 0xFFFFFFFF x = bytesEffect p 4 a value x ∧
      ioEffect p 2 0 (a + 2) (value >>> 16) 0xFFFF (ioEffect p 2 0 a value 0xFFFF x) =
        bytesEffect p 4 a value x := by
  have htwo : (a + 2).toNat = a.toNat + 2 := toNat_add_two (by omega)
  have haddress : a + 2 = a + 1 + 1 := by
    rw [UInt32.add_assoc]
    rfl
  have hfirst : ioEffect p 2 0 a value 0xFFFF x = bytesEffect p 2 a value x :=
    ioEffect_bytes hx (by decide) rfl (by omega) fun b hlow hhigh => hkeeps b hlow (by omega)
  have hsecond : ioEffect p 2 0 (a + 2) (value >>> 16) 0xFFFF (ioEffect p 2 0 a value 0xFFFF x) =
      bytesEffect p 2 (a + 2) (value >>> 16) (ioEffect p 2 0 a value 0xFFFF x) :=
    ioEffect_bytes (regular_ioEffect hx 2 0 a value 0xFFFF) (by decide) rfl (by omega)
      fun b hlow hhigh => hkeeps b (by omega) (by omega)
  refine ⟨ioEffect_bytes hx le_rfl rfl (by omega) hkeeps, ?_⟩
  rw [hsecond, hfirst, haddress, shiftRight_sixteen]
  rfl

/-- A write to the later bytes of a register that forgets clears it. -/
theorem ioEffect_clears {r : IoRegister} {b : UInt32} (hforgets : r.rewrittenBits ≠ 0)
    (hr : writableAt? p b = some r) (hlater : r.start < b.toNat) {left : Nat}
    (hleft : b.toNat + (left + 1) ≤ r.start + r.size) :
    ioEffect p (left + 1) 0 b value mask x = registerEffect p ⟨0, 0⟩ r x := by
  rw [ioEffect_within hr hleft]
  refine registerEffect_of_forgets hforgets ((raw_and_rewrittenBits hr hlater).trans ?_)
  exact UInt32.zero_and.symm

/-- A write of all bytes of a register writes the value. -/
theorem raw_lanesAt_start {r : IoRegister} (hr : writableAt? p a = some r)
    (hstart : r.start = a.toNat) : (r.lanesAt a value 0xFFFFFFFF).raw = value := by
  have hoffset : r.offset a = 0 := by
    rw [← UInt32.toNat_inj, toNat_offset hr, hstart]
    exact Nat.sub_self _
  show (value <<< (r.offset a * 8)) &&& (0xFFFFFFFF <<< (r.offset a * 8)) = value
  have hall : (0xFFFFFFFF : UInt32) = -1 := rfl
  rw [hoffset, UInt32.zero_mul, UInt32.shiftLeft_zero, UInt32.shiftLeft_zero, hall,
    UInt32.and_neg_one]

/-- Of several writes to a register that forgets the last one counts, and it clears the register.
A word does so only if what the register takes from it is zero. -/
theorem ioEffect_parts_of_forgets (hx : x.2.Regular) {r : IoRegister}
    (hr : writableAt? p a = some r) (hstart : r.start = a.toNat) (hsize : r.size = 4)
    (ha : a.toNat + 4 < 2 ^ 32) (hforgets : r.rewrittenBits ≠ 0) (value : UInt32) :
    ioEffect p 2 0 (a + 2) (value >>> 16) 0xFFFF (ioEffect p 2 0 a value 0xFFFF x) =
        bytesEffect p 4 a value x ∧
      (ioEffect p 4 0 a value 0xFFFFFFFF x =
          ioEffect p 2 0 (a + 2) (value >>> 16) 0xFFFF (ioEffect p 2 0 a value 0xFFFF x) ↔
        value &&& r.rewrittenBits = 0) := by
  obtain ⟨hmem, hwritable, -, -⟩ := writableAt?_eq_some_iff.mp hr
  have hin : ∀ b : UInt32, a.toNat ≤ b.toNat → b.toNat < a.toNat + 4 → writableAt? p b = some r :=
    fun b hlow hhigh => writableAt?_eq_some_iff.mpr ⟨hmem, hwritable, by omega, by omega⟩
  have htwo : (a + 2).toNat = a.toNat + 2 := toNat_add_two (by omega)
  have hone : (a + 1).toNat = a.toNat + 1 := toNat_add_one (by omega)
  have hnext : (a + 1 + 1).toNat = a.toNat + 2 := by rw [toNat_add_one (by omega), hone]
  have hlast : (a + 1 + 1 + 1).toNat = a.toNat + 3 := by rw [toNat_add_one (by omega), hnext]
  have hword : ioEffect p 4 0 a value 0xFFFFFFFF x =
      registerEffect p (r.lanesAt a value 0xFFFFFFFF) r x := ioEffect_within hr (by omega)
  have hhalves :
      ioEffect p 2 0 (a + 2) (value >>> 16) 0xFFFF (ioEffect p 2 0 a value 0xFFFF x) =
        registerEffect p ⟨0, 0⟩ r x := by
    rw [ioEffect_clears hforgets (hin _ (by omega) (by omega)) (by omega) (by omega),
      ioEffect_within hr (by omega), registerEffect_overwrites hx hforgets]
  have hbytes : bytesEffect p 4 a value x = registerEffect p ⟨0, 0⟩ r x := by
    show ioEffect p 1 0 (a + 1 + 1 + 1) _ _ (ioEffect p 1 0 (a + 1 + 1) _ _
      (ioEffect p 1 0 (a + 1) _ _ (ioEffect p 1 0 a value 0xFF x))) = _
    -- The last three clear the register, whatever the first has stored.
    rw [ioEffect_clears hforgets (hin _ (by omega) (by omega)) (by omega) (by omega),
      ioEffect_clears hforgets (hin _ (by omega) (by omega)) (by omega) (by omega),
      ioEffect_clears hforgets (hin _ (by omega) (by omega)) (by omega) (by omega),
      ioEffect_within hr (by omega), registerEffect_overwrites hx hforgets,
      registerEffect_overwrites hx hforgets, registerEffect_overwrites hx hforgets]
  have hraw : (r.lanesAt a value 0xFFFFFFFF).raw = value := raw_lanesAt_start hr hstart
  refine ⟨hhalves.trans hbytes.symm, ?_⟩
  rw [hword, hhalves]
  constructor
  · -- What the register holds afterwards tells the value.
    intro hsame
    have hstored := congrArg (fun y : Parts => y.2.storedBits p r) hsame
    simp only [registerEffect] at hstored
    rw [System.storedBits_writeIo_of_forgets _ _ _ _ hforgets,
      System.storedBits_writeIo_of_forgets _ _ _ _ hforgets, hraw, UInt32.toNat_inj] at hstored
    exact hstored.trans UInt32.zero_and
  · intro hzero
    refine registerEffect_of_forgets hforgets ?_
    rw [hraw, hzero]
    exact UInt32.zero_and.symm

end Words

/-! ## Sessions -/

section Sessions

variable {p : Processor} {w : Width} {address value : UInt32} {x : Parts}

/-- A write to the device registers, of some bytes from an offset on, makes a register forget what
it does not cover. -/
def IoRegister.ForgetsIn (r : IoRegister) (offset count : Nat) : Prop :=
  r.rewrittenBits ≠ 0 ∧ r.start < offset + count ∧ offset < r.start + r.size

/-- A write leaves the bits of registers alone whose bytes it does not cover, unless their register
forgets. -/
theorem testBit_storedBits_writeEffect (h : x.2.control.Settled)
    (hio : address.toNat / 2 ^ 24 = 4) (hw : w.bytes.toNat ∣ address.toNat) {r : IoRegister}
    (hr : r ∈ all p) {i : Nat} (hi : i < 8 * r.size)
    (hout : r.start + i / 8 < address.toNat % 2 ^ 24 ∨
      address.toNat % 2 ^ 24 + w.bytes.toNat ≤ r.start + i / 8) :
    (x.2.target p address true = .io → r.ForgetsIn (address.toNat % 2 ^ 24) w.bytes.toNat →
        ((writeEffect p w address value x).2.storedBits p r).testBit i = false) ∧
      (¬ (x.2.target p address true = .io ∧
          r.ForgetsIn (address.toNat % 2 ^ 24) w.bytes.toNat) →
        ((writeEffect p w address value x).2.storedBits p r).testBit i =
          (x.2.storedBits p r).testBit i) := by
  obtain ⟨k, hk, hbytes⟩ := w.bytes_eq_pow
  have hdown : Address.alignDown address w.bytes = address := Address.alignDown_of_dvd hbytes hw
  have hpositive : 0 < w.bytes.toNat ∧ w.bytes.toNat ≤ 4 := by cases w <;> decide
  rcases target_devices h hio p true with ⟨-, htarget⟩ | ⟨region, offset, -, htarget⟩
  · have hwrite : writeEffect p w address value x =
        ioEffect p w.bytes.toNat 0 (address &&& 0xFFFFFF) (w.truncate value)
          (w.truncate 0xFFFFFFFF) x := by
      unfold writeEffect
      rw [hdown, htarget]
    have harea : (address &&& 0xFFFFFF).toNat = address.toNat % 2 ^ 24 := toNat_area address
    rw [hwrite, testBit_storedBits_ioEffect (toNat_mask w) ?fits hr hi ?outside]
    case fits | outside => omega
    constructor
    · rintro - ⟨hforgets, hlow, hhigh⟩
      exact if_pos ⟨by omega, hforgets⟩
    · intro hkeeps
      exact if_neg fun hforgets => hkeeps ⟨htarget, hforgets.2, by omega, by omega⟩
  · have hwrite : writeEffect p w address value x =
        (x.1, { x.2 with memory := x.2.memory.write region w.bytes.toNat offset value }) := by
      unfold writeEffect
      rw [hdown, htarget]
    rw [hwrite]
    constructor
    · intro hdevices
      rw [htarget] at hdevices
      cases hdevices
    · intro _
      cases r with
      | bootFlag =>
        show ((x.2.memory.write region w.bytes.toNat offset value).bootFlags.get p).toNat.testBit i
          = _
        rw [Memory.bootFlags_write]
        rfl
      | _ => rfl

/-- A word is its bytes and its halves, unless it is for a register that forgets. -/
theorem writeEffect_parts (hx : x.2.Regular) (h : x.2.control.Settled)
    (haligned : 4 ∣ address.toNat) (hio : address.toNat / 2 ^ 24 = 4) (p : Processor)
    (value : UInt32) :
    partsEffect p .half 2 address value x = partsEffect p .byte 4 address value x ∧
      (writeEffect p .word address value x = partsEffect p .half 2 address value x ↔
        ∀ r, x.2.target p address true = .io → writableAt? p (address &&& 0xFFFFFF) = some r →
          value &&& r.rewrittenBits = 0) := by
  rcases target_devices h hio p true with ⟨-, htarget⟩ | ⟨region, offset, -, htarget⟩
  · have harea : (address &&& 0xFFFFFF).toNat = address.toNat % 2 ^ 24 := toNat_area address
    have hfits : (address &&& 0xFFFFFF).toNat + 4 < 2 ^ 32 := by omega
    have hword := writeEffect_part (w := .word) h haligned hio htarget (by decide : 0 < 4) rfl
      haligned value
    rw [partsEffect_half h haligned hio htarget,
      partsEffect_byte h haligned hio htarget (by decide : 0 + 4 ≤ 4) rfl, hword]
    -- A register that forgets has the size of a word, so where one is touched there is no other.
    by_cases hforgets : ∃ b : UInt32, (address &&& 0xFFFFFF).toNat ≤ b.toNat ∧
        b.toNat < (address &&& 0xFFFFFF).toNat + 4 ∧
        ∃ r, writableAt? p b = some r ∧ r.rewrittenBits ≠ 0
    · obtain ⟨b, hlow, hhigh, r, hb, hforgets⟩ := hforgets
      obtain ⟨hr, hstart, hsize⟩ := writableAt?_start hb hforgets (by omega) hlow hhigh
      obtain ⟨hparts, hiff⟩ :=
        ioEffect_parts_of_forgets hx hr hstart hsize hfits hforgets value
      refine ⟨hparts, hiff.trans ⟨fun hzero r' _ hr' => ?_, fun hzero => hzero r htarget hr⟩⟩
      rw [hr, Option.some.injEq] at hr'
      rw [← hr', hzero]
    · have hkeeps : ∀ b : UInt32, (address &&& 0xFFFFFF).toNat ≤ b.toNat →
          b.toNat < (address &&& 0xFFFFFF).toNat + 4 →
          ∀ r, writableAt? p b = some r → r.rewrittenBits = 0 := by
        intro b hlow hhigh r hr
        by_contra hne
        exact hforgets ⟨b, hlow, hhigh, r, hr, hne⟩
      obtain ⟨hbytes, hhalves⟩ := ioEffect_parts hx hfits hkeeps value
      refine ⟨hhalves, iff_of_true (hbytes.trans hhalves.symm) fun r _ hr => ?_⟩
      rw [hkeeps _ le_rfl (by omega) r hr]
      exact UInt32.and_zero
  · obtain ⟨hhalves, hword⟩ := partsEffect_memory h haligned hio htarget value
    refine ⟨hhalves, iff_of_true hword fun r hdevices => ?_⟩
    rw [htarget] at hdevices
    cases hdevices

theorem Session.withParts_inj (s : Session) (p : Processor) {x y : Parts} :
    s.withParts p x = s.withParts p y ↔ x = y := by
  refine ⟨fun h => ?_, congrArg _⟩
  have hparts := congrArg (Session.partsOf · p) h
  simpa using hparts

/-- **Writes reach the bytes that they cover.** Take any session that a console can come to, any
address of the device registers and any value. A write of any width that is aligned leaves those
bits of the processor's registers as they are whose bytes it does not cover. Three registers are an
exception: `divisionControl`, `squareRootControl` and `interruptMaster` forget, which is to say
that a write to some of their bytes clears the others. A word that is written in two halves, or in
four bytes, the lower ones first, leaves the same session in both cases. It is the session after the
whole word was written exactly if no register that forgets was to take a bit of the word that is
set. -/
theorem Session.writes_by_lanes {s : Session} (h : s.Attained) (p : Processor)
    (address value : UInt32) (log : Log) (hio : address.toNat / 2 ^ 24 = 4) :
    (∀ w : Width, w.bytes.toNat ∣ address.toNat → ∀ r ∈ all p, ∀ i < 8 * r.size,
      r.start + i / 8 < address.toNat % 2 ^ 24 ∨
          address.toNat % 2 ^ 24 + w.bytes.toNat ≤ r.start + i / 8 →
        (s.system.target p address true = .io →
          r.ForgetsIn (address.toNat % 2 ^ 24) w.bytes.toNat →
            ((s.write p w address value log).1.system.storedBits p r).testBit i = false) ∧
        (¬ (s.system.target p address true = .io ∧
            r.ForgetsIn (address.toNat % 2 ^ 24) w.bytes.toNat) →
          ((s.write p w address value log).1.system.storedBits p r).testBit i =
            (s.system.storedBits p r).testBit i)) ∧
    (4 ∣ address.toNat →
      (s.writeParts p .half 2 address value log).1 =
          (s.writeParts p .byte 4 address value log).1 ∧
        ((s.write p .word address value log).1 =
            (s.writeParts p .half 2 address value log).1 ↔
          ∀ r, s.system.target p address true = .io →
            writableAt? p (address &&& 0xFFFFFF) = some r → value &&& r.rewrittenBits = 0)) := by
  constructor
  · intro w hw r hr i hi hout
    rw [write_fst]
    exact testBit_storedBits_writeEffect (x := s.partsOf p) h.settled hio hw hr hi hout
  · intro haligned
    obtain ⟨hhalves, hword⟩ :=
      writeEffect_parts (x := s.partsOf p) h.regular h.settled haligned hio p value
    rw [write_fst, writeParts_fst, writeParts_fst, withParts_inj, withParts_inj]
    exact ⟨hhalves, hword⟩

/-- The master switch is turned on and then off again by a byte that lies next to it. In two halves
it is not turned on at all, by a word it is. For the enabled interrupts both are the same. -/
theorem Session.writes_by_lanes_master :
    let s := Session.new {}
    let on := (s.write .arm9 .word 0x04000208 1 {}).1
    on.Attained ∧
      (on.system.interrupts.get .arm9).master = true ∧
      (((on.write .arm9 .byte 0x04000209 0 {}).1).system.interrupts.get .arm9).master = false ∧
      (s.writeParts .arm9 .half 2 0x04000208 1 {}).1 =
        (s.writeParts .arm9 .byte 4 0x04000208 1 {}).1 ∧
      on ≠ (s.writeParts .arm9 .half 2 0x04000208 1 {}).1 ∧
      (s.write .arm9 .word 0x04000210 0x12345678 {}).1 =
        (s.writeParts .arm9 .half 2 0x04000210 0x12345678 {}).1 := by
  intro s on
  have hs : s.Attained := .new {}
  have hon : on.Attained := .step hs (.write s .arm9 .word 0x04000208 1 {})
  have hmaster : interruptMaster ∈ all .arm9 := by decide
  have hdevices : s.system.target .arm9 0x04000208 true = .io := by decide
  have hnext : on.system.target .arm9 0x04000209 true = .io := by decide
  obtain ⟨hkept, -⟩ := writes_by_lanes hon .arm9 0x04000209 0 {} (by decide)
  obtain ⟨-, hparts⟩ := writes_by_lanes hs .arm9 0x04000208 1 {} (by decide)
  obtain ⟨-, henabled⟩ := writes_by_lanes hs .arm9 0x04000210 0x12345678 {} (by decide)
  obtain ⟨hsame, hword⟩ := hparts (by decide)
  obtain ⟨-, hwhole⟩ := henabled (by decide)
  have hcleared := (hkept .byte (by decide) interruptMaster hmaster 0 (by decide) (by decide)).1
    hnext ⟨by decide, by decide, by decide⟩
  have hbit : ∀ b : Bool, b.toNat.testBit 0 = b := by decide
  refine ⟨hon, by decide, (hbit _).symm.trans hcleared, hsame, fun heq => ?_, hwhole.mpr ?_⟩
  · exact absurd (hword.mp heq interruptMaster hdevices (by decide)) (by decide)
  · intro r _ hr
    have hfound : writableAt? .arm9 (0x04000210 &&& 0xFFFFFF) = some interruptEnable := by decide
    rw [hfound, Option.some.injEq] at hr
    rw [← hr]
    exact UInt32.and_zero

end Sessions
end Handheld.Console
