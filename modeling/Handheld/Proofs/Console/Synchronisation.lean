import Mathlib
import Handheld.Proofs.Console.MathUnits
import Handheld.Proofs.Console.ReadsByLanes

/-!
# What the processors show each other

The synchronisation registers after any accesses of both processors, in any order and of any width.
A processor reads the bits that the other one wrote last, beside its own, and a write interrupts
the other processor if it asks for that and the other one permits it at that time:
`Session.synchronisation_exact`.

Each access is one write of lanes to its processor's register, or it lies elsewhere and leaves both
registers alone, `Session.sync_access`. What accesses have written is then read off the list of
them.
-/

namespace Handheld.Console

open IoRegister Word Address

/-! ## The registers -/

namespace Ipc

variable {ipc : Ipc} {p : Processor} {l : Lanes}

/-- A bit that is kept is taken from a write that covers it. -/
theorem testBit_write (ipc : Ipc) (p q : Processor) (l : Lanes) {i : Nat} (hi : i < 16) :
    ((ipc.write p l).1.registers.get q).toNat.testBit i =
      if q = p ∧ keptMask.toNat.testBit i = true ∧ l.covers i = true then l.value.toNat.testBit i
      else (ipc.registers.get q).toNat.testBit i := by
  have hcases : q = p ∨ q = p.other := by cases p <;> cases q <;> simp [Processor.other]
  rcases hcases with rfl | rfl
  · show ((ipc.registers.set q _).get q).toNat.testBit i = _
    rw [PerProcessor.get_set_self, testBit_kept _ _ hi, Lanes.testBit_merge16 _ _ hi]
    by_cases hkept : keptMask.toNat.testBit i = true <;> simp [hkept]
  · have hother : p.other ≠ p := by cases p <;> decide
    show ((ipc.registers.set p _).get p.other).toNat.testBit i = _
    rw [PerProcessor.get_set_other, if_neg fun h => hother h.1]

/-- A write raises an interrupt if it asks for that, and the other processor lets it. -/
theorem raises_write (h : ipc.Clean) :
    (ipc.write p l).2 = true ↔
      (l.covers 13 = true ∧ l.value.toNat.testBit 13 = true) ∧
        (ipc.registers.get p.other).toNat.testBit 14 = true := by
  show (isBit (l.merge16 (ipc.registers.get p)) 13 && ipc.permits p.other) = true ↔ _
  unfold permits
  rw [isBit16_eq_testBit _ (by decide), isBit16_eq_testBit _ (by decide),
    Lanes.testBit_merge16 _ _ (by decide), h.testBit p]
  simp

/-- The bits that the other processor shows come first, and then those that were kept. -/
theorem testBit_read (ipc : Ipc) (p : Processor) {i : Nat} (hi : i < 16) :
    (ipc.read p).toNat.testBit i =
      if i < 4 then (ipc.registers.get p.other).toNat.testBit (8 + i)
      else (ipc.registers.get p).toNat.testBit i := by
  have hshown : (bits (ipc.registers.get p.other) 8 4).toNat.testBit i =
      (decide (i < 4) && (ipc.registers.get p.other).toNat.testBit (8 + i)) := by
    show ((ipc.registers.get p.other >>> 8) &&& 15).toNat.testBit i = _
    have hshift : (8 : UInt16).toNat % 16 = 8 := rfl
    have hmask : (15 : UInt16).toNat = 2 ^ 4 - 1 := rfl
    rw [UInt16.toNat_and, Nat.testBit_and, UInt16.toNat_shiftRight, hshift, hmask,
      Nat.testBit_shiftRight, Nat.testBit_two_pow_sub_one, Bool.and_comm]
  have hhigh : ∀ i < 16, (0xFFF0 : UInt16).toNat.testBit i = decide (4 ≤ i) := by decide
  unfold read
  rw [UInt16.toNat_or, Nat.testBit_or, UInt16.toNat_and, Nat.testBit_and, hshown, hhigh i hi]
  by_cases hlow : i < 4
  · simp [hlow]
  · simp [hlow, not_lt.mp hlow]

end Ipc

namespace System

variable {s : System} {p : Processor} {l : Lanes}

theorem ipc_writeIpc (s : System) (p : Processor) (l : Lanes) :
    (s.writeIpc p l).ipc = (s.ipc.write p l).1 := by
  unfold writeIpc
  dsimp only
  split <;> rfl

/-- A write to a synchronisation register changes nothing but the registers and the interrupts. -/
theorem writeIpc_eq (s : System) (p : Processor) (l : Lanes) :
    s.writeIpc p l =
      { s with
        ipc := (s.writeIpc p l).ipc
        interrupts := (s.writeIpc p l).interrupts } := by
  unfold writeIpc
  dsimp only
  split <;> rfl

theorem interrupts_writeIpc_self (s : System) (p : Processor) (l : Lanes) :
    (s.writeIpc p l).interrupts.get p = s.interrupts.get p := by
  unfold writeIpc
  dsimp only
  split
  · cases p <;> rfl
  · rfl

/-- Of the interrupts of the other processor the one may be raised. -/
theorem interrupts_writeIpc_other (s : System) (p : Processor) (l : Lanes) :
    (s.writeIpc p l).interrupts.get p.other =
      { s.interrupts.get p.other with
        raised :=
          if (s.ipc.write p l).2 = true then (s.interrupts.get p.other).raised ||| 0x10000
          else (s.interrupts.get p.other).raised } := by
  have hset : ∀ x : UInt32, setBit x 16 true = x ||| 0x10000 := by
    intro x
    apply ext_isBit
    intro i hi
    have hbit : ∀ i < 32, (0x10000 : UInt32).toNat.testBit i = decide (i = 16) := by decide
    rw [isBit_setBit _ _ (by decide) hi, isBit_eq_testBit _ hi, isBit_eq_testBit _ hi,
      UInt32.toNat_or, Nat.testBit_or, hbit i hi]
    by_cases hplace : i = 16 <;> simp [hplace]
  unfold writeIpc
  dsimp only
  split
  · show ((s.interrupts.modify p.other _).get p.other) = _
    rw [PerProcessor.get_modify_self]
    exact congrArg (fun raised => { s.interrupts.get p.other with raised }) (hset _)
  · rfl

/-- No other register has a part in the synchronisation. -/
theorem ipc_writeIo_other {r : IoRegister} (hr : r ≠ .ipcSync) (log : Log) :
    (s.writeIo p l log r).1.ipc = s.ipc := by
  cases r with
  | ipcSync => exact absurd rfl hr
  | timerControl i =>
    show (s.writeTimerControl p i l log).1.ipc = _
    rw [queue_writeTimerControl]
  | _ => rfl

end System

/-! ## One access -/

section Effects

variable {p : Processor} {x : Parts} {a value mask : UInt32}

/-- What no register changes that an access reaches, the access does not change. -/
theorem ioEffect_keeps {α : Type} (f : Parts → α) {left skip : Nat} (ha : a.toNat + left < 2 ^ 32)
    (h : ∀ r ∈ all p, r.start < a.toNat + left → a.toNat < r.start + r.size →
      ∀ l x, f (registerEffect p l r x) = f x) :
    f (ioEffect p left skip a value mask x) = f x := by
  induction left generalizing skip a value mask x with
  | zero => rfl
  | succ left ih =>
    have hnext : (a + 1).toNat = a.toNat + 1 := toNat_add_one (by omega)
    have hrest : ∀ r ∈ all p, r.start < (a + 1).toNat + left → (a + 1).toNat < r.start + r.size →
        ∀ l x, f (registerEffect p l r x) = f x :=
      fun r hr hlow hhigh => h r hr (by omega) (by omega)
    cases skip with
    | succ skip => exact ih (by omega) hrest
    | zero =>
      cases hfirst : writableAt? p a with
      | none =>
        rw [ioEffect_none hfirst]
        exact ih (by omega) hrest
      | some first =>
        obtain ⟨hmem, -, hlow, hhigh⟩ := writableAt?_eq_some_iff.mp hfirst
        rw [ioEffect_some hfirst, ih (by omega) hrest]
        exact h first hmem (by omega) hhigh _ _

/-- Where no register takes writes an access does nothing. The first bytes were written before. -/
theorem ioEffect_of_none {left skip : Nat} (ha : a.toNat + left < 2 ^ 32)
    (h : ∀ b : UInt32, a.toNat + skip ≤ b.toNat → b.toNat < a.toNat + left →
      writableAt? p b = none) :
    ioEffect p left skip a value mask x = x := by
  induction left generalizing skip a value mask with
  | zero => rfl
  | succ left ih =>
    have hnext : (a + 1).toNat = a.toNat + 1 := toNat_add_one (by omega)
    cases skip with
    | succ skip => exact ih (by omega) fun b hlow hhigh => h b (by omega) (by omega)
    | zero =>
      rw [ioEffect_none (h a (by omega) (by omega))]
      exact ih (by omega) fun b hlow hhigh => h b (by omega) (by omega)

/-- The word of the synchronisation register has no other register in it. -/
theorem apart_from_sync :
    ipcSync ∈ all p ∧ ∀ r ∈ all p, r = .ipcSync ∨ r.start + r.size ≤ 0x180 ∨ 0x184 ≤ r.start := by
  cases p <;> decide +kernel

/-- An access that lies in the word of the synchronisation register is one write to it. -/
theorem ioEffect_sync {left : Nat} (hlow : 0x180 ≤ a.toNat) (hfirst : a.toNat < 0x182)
    (hhigh : a.toNat + (left + 1) ≤ 0x184) :
    writableAt? p a = some .ipcSync ∧
      ioEffect p (left + 1) 0 a value mask x =
        registerEffect p (ipcSync.lanesAt a value mask) .ipcSync x := by
  obtain ⟨hmem, hapart⟩ := apart_from_sync (p := p)
  have hstart : ipcSync.start = 0x180 := rfl
  have hsize : ipcSync.size = 2 := rfl
  have hfound : writableAt? p a = some .ipcSync :=
    writableAt?_eq_some_iff.mpr ⟨hmem, rfl, by omega, by omega⟩
  refine ⟨hfound, ?_⟩
  have hnext : (a + 1).toNat = a.toNat + 1 := toNat_add_one (by omega)
  have hafter := bytesAfter_eq hfound
  rw [ioEffect_some hfound]
  apply ioEffect_of_none (by omega)
  -- The bytes behind the register are in its word, so they have no register.
  intro b hbehind hinside
  cases hb : writableAt? p b with
  | none => rfl
  | some r =>
    obtain ⟨hr, -, hstarts, hends⟩ := writableAt?_eq_some_iff.mp hb
    rcases hapart r hr with rfl | h | h <;> omega

/-- An access that leads elsewhere than to devices leaves the registers alone. -/
theorem ipc_writeEffect {w : Width} {address : UInt32}
    (h : x.2.target p (alignDown address w.bytes) true ≠ .io) :
    (writeEffect p w address value x).2.ipc = x.2.ipc := by
  unfold writeEffect
  cases htarget : x.2.target p (alignDown address w.bytes) true with
  | io => exact absurd htarget h
  | memory | stub | unmapped => rfl

end Effects

namespace Session

/-- The value that an access gives to bit `i` of its processor's synchronisation register, if it is
a write that covers the bit. -/
def BusAccess.syncBit? (s : System) (p : Processor) (i : Nat) : BusAccess → Option Bool
  | .read .. => none
  | .write w address value =>
    let first := 8 * ((alignDown address w.bytes).toNat % 2 ^ 24)
    let bit := 8 * ipcSync.start + i
    if s.target p (alignDown address w.bytes) true = .io ∧
        first ≤ bit ∧ bit < first + 8 * w.bytes.toNat then
      some (value.toNat.testBit (bit - first))
    else none

section

variable {s t : Session} {p : Processor} {a : BusAccess}

/-- An access leaves the windows alone. -/
theorem windows_access (s : Session) (p : Processor) (log : Log) (a : BusAccess) :
    (s.access p log a).1.system.control = s.system.control := by
  cases a with
  | read w address => exact congrArg (·.system.control) (s.read_fst p w address log)
  | write w address value =>
    refine (congrArg (·.system.control) (s.write_fst p w address value log)).trans ?_
    show (writeEffect p w address value (s.partsOf p)).2.control = _
    by_cases hio : s.system.target p (alignDown address w.bytes) true = .io
    · rw [writeEffect_of_io (x := s.partsOf p) hio, control_ioEffect]
      rfl
    · exact (devices_writeEffect (x := s.partsOf p) hio).1

/-- What an access writes is settled by the windows. -/
theorem BusAccess.syncBit?_congr {s t : System} (h : t.control = s.control) (p : Processor)
    (i : Nat) (a : BusAccess) : a.syncBit? t p i = a.syncBit? s p i := by
  cases a with
  | read => rfl
  | write w address value =>
    have htarget : t.target p (alignDown address w.bytes) true =
        s.target p (alignDown address w.bytes) true := target_after h rfl
    simp only [syncBit?, htarget]

/-- A write to the word of the synchronisation register. -/
theorem sync_write {w : Width} {address value : UInt32} (s : Session) (log : Log)
    (hio : s.system.target p (alignDown address w.bytes) true = .io)
    (hlow : 0x180 ≤ (alignDown address w.bytes).toNat % 2 ^ 24)
    (hhigh : (alignDown address w.bytes).toNat % 2 ^ 24 < 0x182) :
    ∃ l : Lanes,
      (∀ i < 16, (BusAccess.write w address value).syncBit? s.system p i =
        if l.covers i = true then some (l.value.toNat.testBit i) else none) ∧
      (s.access p log (.write w address value)).1 =
        { s with system := s.system.writeIpc p l } := by
  let place := alignDown address w.bytes &&& 0xFFFFFF
  have hplace : place.toNat = (alignDown address w.bytes).toNat % 2 ^ 24 := toNat_area _
  have haligned : w.bytes.toNat ∣ place.toNat := (toNat_place w address).1
  have hend : place.toNat + w.bytes.toNat ≤ 0x184 := by
    rcases w.toNat_bytes with hw | hw | hw <;> rw [hw] at haligned ⊢ <;> omega
  have hbytes : w.bytes.toNat = w.bytes.toNat - 1 + 1 := by cases w <;> rfl
  have hstart : ipcSync.start = 0x180 := rfl
  let l := ipcSync.lanesAt place (w.truncate value) (w.truncate 0xFFFFFFFF)
  have hsync : writableAt? p place = some .ipcSync ∧
      ioEffect p (w.bytes.toNat - 1 + 1) 0 place (w.truncate value) (w.truncate 0xFFFFFFFF)
        (s.partsOf p) = registerEffect p l .ipcSync (s.partsOf p) :=
    ioEffect_sync (by omega) (by omega) (by omega)
  obtain ⟨hfound, heffect⟩ := hsync
  refine ⟨l, ?_, ?_⟩
  · intro i hi
    have hcovers : l.covers i = _ := covers_lanesAt hfound (toNat_mask w) (by omega)
    have hvalue : l.value.toNat.testBit i = _ := value_lanesAt hfound (by omega)
    simp only [BusAccess.syncBit?, hio, true_and, ← hplace, hcovers, decide_eq_true_eq, hvalue]
    -- Seen from the register and from the start of the access, the bit is the same.
    by_cases hbit : 8 * place.toNat ≤ 8 * ipcSync.start + i ∧
        8 * ipcSync.start + i < 8 * place.toNat + 8 * w.bytes.toNat
    · have hdigit : i - 8 * (place.toNat - ipcSync.start) =
          8 * ipcSync.start + i - 8 * place.toNat := by omega
      rw [if_pos hbit, if_pos (by omega), decide_eq_true (by omega), Bool.true_and, hdigit,
        testBit_truncate _ _ (by omega)]
    · rw [if_neg hbit, if_neg (by omega)]
  · have hwrite : (s.access p log (.write w address value)).1 =
        s.withParts p (writeEffect p w address value (s.partsOf p)) := write_fst ..
    rw [hwrite, writeEffect_of_io (x := s.partsOf p) hio, hbytes, heffect]
    show { s with cpus := s.cpus.set p (s.cpus.get p), system := s.system.writeIpc p l } = _
    rw [PerProcessor.set_get]

/-- An access writes lanes to the register, or it covers none of it and leaves both alone. -/
theorem sync_access (s : Session) (p : Processor) (log : Log) (a : BusAccess) :
    (∃ l : Lanes,
      (∀ i < 16, a.syncBit? s.system p i =
        if l.covers i = true then some (l.value.toNat.testBit i) else none) ∧
      (s.access p log a).1 = { s with system := s.system.writeIpc p l }) ∨
    (∀ i < 16, a.syncBit? s.system p i = none) ∧
      (s.access p log a).1.system.ipc = s.system.ipc := by
  cases a with
  | read w address =>
    right
    exact ⟨fun i _ => rfl, congrArg (·.system.ipc) (s.read_fst p w address log)⟩
  | write w address value =>
    let place := (alignDown address w.bytes).toNat % 2 ^ 24
    have haligned : w.bytes.toNat ∣ place :=
      (Nat.dvd_mod_iff (bytes_dvd w (by decide))).mpr (bytes_dvd_alignDown w address)
    have hwrite : (s.access p log (.write w address value)).1.system =
        (writeEffect p w address value (s.partsOf p)).2 := congrArg (·.system) (write_fst ..)
    have hstart : ipcSync.start = 0x180 := rfl
    by_cases hio : s.system.target p (alignDown address w.bytes) true = .io
    · by_cases hin : 0x180 ≤ place ∧ place < 0x182
      · left
        exact s.sync_write log hio hin.1 hin.2
      · right
        -- Halves and words are aligned, so none that starts before the register reaches into it.
        have hout : place + w.bytes.toNat ≤ 0x180 ∨ 0x182 ≤ place := by
          rcases w.toNat_bytes with hw | hw | hw <;> rw [hw] at haligned ⊢ <;> omega
        constructor
        · intro i hi
          apply if_neg
          rintro ⟨-, hlow, hhigh⟩
          have hfirst : 8 * place ≤ 8 * ipcSync.start + i := hlow
          have hlast : 8 * ipcSync.start + i < 8 * place + 8 * w.bytes.toNat := hhigh
          omega
        · have harea : (alignDown address w.bytes &&& 0xFFFFFF).toNat = place := toNat_area _
          have hfits : place + w.bytes.toNat < 2 ^ 32 := by
            rcases w.toNat_bytes with hw | hw | hw <;> rw [hw] <;> omega
          have hkeeps : (ioEffect p w.bytes.toNat 0 (alignDown address w.bytes &&& 0xFFFFFF)
              (w.truncate value) (w.truncate 0xFFFFFFFF) (s.partsOf p)).2.ipc = s.system.ipc := by
            apply ioEffect_keeps (·.2.ipc) (by omega)
            intro r hr hlow hhigh l x
            apply System.ipc_writeIo_other
            rintro rfl
            have hsize : ipcSync.size = 2 := rfl
            omega
          rw [hwrite, writeEffect_of_io (x := s.partsOf p) hio]
          exact hkeeps
    · right
      constructor
      · intro i hi
        apply if_neg
        exact fun h => hio h.1
      · rw [hwrite]
        exact ipc_writeEffect (x := s.partsOf p) hio

theorem clean_access (h : s.system.ipc.Clean) (p : Processor) (log : Log) (a : BusAccess) :
    (s.access p log a).1.system.ipc.Clean := by
  rcases s.sync_access p log a with ⟨l, -, hwritten⟩ | ⟨-, hkept⟩
  · rw [hwritten]
    show (s.system.writeIpc p l).ipc.Clean
    rw [System.ipc_writeIpc]
    exact h.write p l
  · rw [hkept]
    exact h

/-- What an access leaves in a bit that is kept. -/
theorem testBit_sync_access (s : Session) (p c : Processor) (log : Log) (a : BusAccess) {i : Nat}
    (hi : i < 16) (hkept : Ipc.keptMask.toNat.testBit i = true) :
    ((s.access p log a).1.system.ipc.registers.get c).toNat.testBit i =
      if p = c then
        (a.syncBit? s.system c i).getD ((s.system.ipc.registers.get c).toNat.testBit i)
      else (s.system.ipc.registers.get c).toNat.testBit i := by
  rcases s.sync_access p log a with ⟨l, hlanes, hwritten⟩ | ⟨hnone, hsame⟩
  · rw [hwritten]
    show ((s.system.writeIpc p l).ipc.registers.get c).toNat.testBit i = _
    rw [System.ipc_writeIpc, Ipc.testBit_write _ _ _ _ hi]
    by_cases hc : p = c
    · subst hc
      rw [hlanes i hi]
      by_cases hcovers : l.covers i = true <;> simp [hkept, hcovers]
    · rw [if_neg hc, if_neg fun h => hc h.1.symm]
  · rw [hsame]
    by_cases hc : p = c
    · subst hc
      rw [hnone i hi, if_pos rfl, Option.getD_none]
    · rw [if_neg hc]

end

/-! ## Accesses of both processors -/

/-- Let both processors make accesses, in the order of the list. -/
def interleaved : List (Processor × BusAccess) → Session → Log → Session × Log
  | [], s, log => (s, log)
  | (p, a) :: rest, s, log =>
    let (s, log) := s.access p log a
    interleaved rest s log

/-- The values that a processor's accesses give to a bit of its synchronisation register, in their
order. -/
def syncBits (s : System) (c : Processor) (i : Nat) (list : List (Processor × BusAccess)) :
    List Bool :=
  list.filterMap fun (p, a) => if p = c then a.syncBit? s c i else none

/-- The value that a processor gave last to a bit of its register, zero before any. -/
def lastSync (s : System) (c : Processor) (i : Nat) (list : List (Processor × BusAccess)) : Bool :=
  (syncBits s c i list).getLast?.getD false

/-- Of whose writes a processor reads which bit, at bit `i` of its synchronisation register. -/
def syncSource (c : Processor) (i : Nat) : Option (Processor × Nat) :=
  if i < 4 then some (c.other, 8 + i)
  else if (8 ≤ i ∧ i < 12) ∨ i = 14 then some (c, i)
  else none

section

variable {s t : Session}

theorem syncBits_congr {s t : System} (h : t.control = s.control) (c : Processor) (i : Nat)
    (list : List (Processor × BusAccess)) : syncBits t c i list = syncBits s c i list := by
  unfold syncBits
  simp only [BusAccess.syncBit?_congr h]

theorem windows_interleaved (s : Session) (list : List (Processor × BusAccess)) (log : Log) :
    (s.interleaved list log).1.system.control = s.system.control := by
  induction list generalizing s log with
  | nil => rfl
  | cons access rest ih =>
    obtain ⟨p, a⟩ := access
    exact (ih _ _).trans (s.windows_access p log a)

theorem clean_interleaved (h : s.system.ipc.Clean) (list : List (Processor × BusAccess))
    (log : Log) : (s.interleaved list log).1.system.ipc.Clean := by
  induction list generalizing s log with
  | nil => exact h
  | cons access rest ih =>
    obtain ⟨p, a⟩ := access
    exact ih (clean_access h p log a) _

/-- A bit that is kept is the one that its processor wrote last. -/
theorem testBit_interleaved (s : Session) (list : List (Processor × BusAccess)) (log : Log)
    (c : Processor) {i : Nat} (hi : i < 16) (hkept : Ipc.keptMask.toNat.testBit i = true) :
    ((s.interleaved list log).1.system.ipc.registers.get c).toNat.testBit i =
      (syncBits s.system c i list).getLast?.getD
        ((s.system.ipc.registers.get c).toNat.testBit i) := by
  induction list generalizing s log with
  | nil => rfl
  | cons access rest ih =>
    obtain ⟨p, a⟩ := access
    refine (ih (s.access p log a).1 (s.access p log a).2).trans ?_
    rw [testBit_sync_access _ _ _ _ _ hi hkept, syncBits_congr (s.windows_access p log a)]
    by_cases hc : p = c
    · rw [if_pos hc]
      cases hbit : a.syncBit? s.system c i <;>
        simp [syncBits, hc, hbit, List.getLast?_cons]
    · simp [syncBits, hc]

/-- What a register reads is what it shows of both. -/
theorem testBit_syncSource (h : s.system.ipc.Clean) (c : Processor) {i : Nat} (hi : i < 16) :
    (s.system.ioValue c .ipcSync).toNat.testBit i =
      match syncSource c i with
      | none => false
      | some (q, j) => (s.system.ipc.registers.get q).toNat.testBit j := by
  have hunkept : Ipc.keptMask.toNat.testBit i = false →
      (s.system.ipc.registers.get c).toNat.testBit i = false := by
    intro hmask
    have hnot : (~~~Ipc.keptMask).toNat.testBit i = true := by
      rw [testBit_not16 _ hi, hmask]
      rfl
    have hbit := congrArg (fun x : UInt16 => x.toNat.testBit i) (h c)
    rw [UInt16.toNat_and, Nat.testBit_and, hnot, Bool.and_true] at hbit
    exact hbit.trans (Nat.zero_testBit i)
  have hmask : ∀ i < 16, 4 ≤ i → ¬ ((8 ≤ i ∧ i < 12) ∨ i = 14) →
      Ipc.keptMask.toNat.testBit i = false := by decide
  show ((s.system.ipc.read c).toUInt32).toNat.testBit i = _
  rw [UInt16.toNat_toUInt32, Ipc.testBit_read _ _ hi]
  unfold syncSource
  by_cases hlow : i < 4
  · rw [if_pos hlow, if_pos hlow]
  · rw [if_neg hlow, if_neg hlow]
    by_cases hown : (8 ≤ i ∧ i < 12) ∨ i = 14
    · rw [if_pos hown]
    · rw [if_neg hown]
      exact hunkept (hmask i hi (not_lt.mp hlow) hown)

/-- The bits that are shown are kept. -/
theorem keptMask_of_syncSource {c q : Processor} {i j : Nat} (hi : i < 16)
    (h : syncSource c i = some (q, j)) : j < 16 ∧ Ipc.keptMask.toNat.testBit j = true := by
  have hlow : ∀ i < 4, Ipc.keptMask.toNat.testBit (8 + i) = true := by decide
  have hown : ∀ i < 16, (8 ≤ i ∧ i < 12) ∨ i = 14 → Ipc.keptMask.toNat.testBit i = true := by
    decide
  unfold syncSource at h
  split at h
  case isTrue hfirst =>
    obtain ⟨-, rfl⟩ := Prod.mk.inj (Option.some.inj h)
    exact ⟨by omega, hlow i hfirst⟩
  case isFalse =>
    split at h
    case isTrue hplace =>
      obtain ⟨-, rfl⟩ := Prod.mk.inj (Option.some.inj h)
      exact ⟨hi, hown i hi hplace⟩
    case isFalse => cases h

/-- What an access does that covers some of the register. -/
theorem sync_effect (h : s.system.ipc.Clean) (c : Processor) (log : Log) (a : BusAccess)
    (hcovers : ∃ i < 16, a.syncBit? s.system c i ≠ none) :
    let u := (s.access c log a).1
    let before := s.system.interrupts.get c.other
    u = { s with
        system := { s.system with ipc := u.system.ipc, interrupts := u.system.interrupts } } ∧
      u.system.interrupts.get c = s.system.interrupts.get c ∧
      u.system.interrupts.get c.other =
        { before with
          raised :=
            if a.syncBit? s.system c 13 = some true ∧
                (s.system.ipc.registers.get c.other).toNat.testBit 14 = true
            then before.raised ||| 0x10000
            else before.raised } := by
  intro u before
  rcases s.sync_access c log a with ⟨l, hlanes, hwritten⟩ | ⟨hnone, -⟩
  · have hsystem : u.system = s.system.writeIpc c l := congrArg Session.system hwritten
    have hasks : (s.system.ipc.write c l).2 = true ↔ a.syncBit? s.system c 13 = some true ∧
        (s.system.ipc.registers.get c.other).toNat.testBit 14 = true := by
      rw [Ipc.raises_write h, hlanes 13 (by decide)]
      by_cases hbit : l.covers 13 = true <;> simp [hbit]
    refine ⟨?_, ?_, ?_⟩
    · rw [hsystem, ← System.writeIpc_eq]
      exact hwritten
    · rw [hsystem]
      exact System.interrupts_writeIpc_self ..
    · rw [hsystem, System.interrupts_writeIpc_other]
      simp only [hasks]
      rfl
  · obtain ⟨i, hi, hbit⟩ := hcovers
    exact absurd (hnone i hi) hbit

/-- What the registers read after an access: the bits that it covers, and the others as before. -/
theorem testBit_ioValue_access (h : s.system.ipc.Clean) (c : Processor) (log : Log)
    (a : BusAccess) (q : Processor) {i : Nat} (hi : i < 16) :
    ((s.access c log a).1.system.ioValue q .ipcSync).toNat.testBit i =
      match syncSource q i with
      | none => false
      | some (c', j) =>
        (if c' = c then a.syncBit? s.system c j else none).getD
          ((s.system.ioValue q .ipcSync).toNat.testBit i) := by
  rw [testBit_syncSource (clean_access h c log a) q hi, testBit_syncSource h q hi]
  cases hsource : syncSource q i with
  | none => rfl
  | some source =>
    obtain ⟨c', j⟩ := source
    obtain ⟨hj, hkept⟩ := keptMask_of_syncSource hi hsource
    dsimp only
    rw [testBit_sync_access _ _ _ _ _ hj hkept]
    by_cases hc : c' = c
    · subst hc
      rw [if_pos rfl, if_pos rfl]
    · rw [if_neg hc, if_neg (Ne.symm hc), Option.getD_none]

/-- A read that leads to the device registers gives the bits of the register. -/
theorem testBit_read_sync (s : Session) {c : Processor} {w : Width} {address : UInt32}
    (hw : w.bytes.toNat ∣ address.toNat) (hio : address.toNat / 2 ^ 24 = 4)
    (htarget : s.system.target c address false = .io) (log : Log) {i j : Nat} (hi : i < 16)
    (hj : j < 8 * w.bytes.toNat)
    (hplace : 8 * (address.toNat % 2 ^ 24) + j = 8 * ipcSync.start + i) :
    (s.read c w address log).1.toNat.testBit j =
      (s.system.ioValue c .ipcSync).toNat.testBit i := by
  have hstart : ipcSync.start = 0x180 := rfl
  have hsize : ipcSync.size = 2 := rfl
  obtain ⟨-, hbits⟩ := testBit_read (p := c) (w := w) ⟨s.cpus.get c, s.system, log⟩ hw hio htarget
  refine (hbits j hj).trans ?_
  rw [System.ioBit_of_mem apart_from_sync.1 (by omega) (by omega) (by omega)]
  have hdigit : 8 * (address.toNat % 2 ^ 24 + j / 8 - ipcSync.start) + j % 8 = i := by omega
  rw [hdigit]

end

/-- **The synchronisation registers show what was written last, and interrupt only on request.**
Take any session in which neither processor has written to its register yet, and let both make any
accesses in any order. Then the register of a processor reads the four bits that the other one
showed last, beside its own bits as it wrote them last, zero before any write and everywhere else;
and so does every read of the memory map that covers them. A further access that covers some of
the register interrupts the other processor if it sets bit 13 and the permission of the other one
is set at that time. It gives the bits that it covers to the two registers and changes nothing
else. -/
theorem synchronisation_exact (s : Session) (hnew : s.system.ipc = {})
    (list : List (Processor × BusAccess)) (log : Log) :
    let t := (s.interleaved list log).1
    (∀ (c : Processor), ∀ i < 16, (t.system.ioValue c .ipcSync).toNat.testBit i =
        match syncSource c i with
        | none => false
        | some (q, j) => lastSync s.system q j list) ∧
      (∀ (c : Processor) (w : Width) (address : UInt32) (log : Log),
        w.bytes.toNat ∣ address.toNat → address.toNat / 2 ^ 24 = 4 →
        t.system.target c address false = .io →
        ∀ i < 16, ∀ j < 8 * w.bytes.toNat,
          8 * (address.toNat % 2 ^ 24) + j = 8 * ipcSync.start + i →
          (t.read c w address log).1.toNat.testBit j =
            (t.system.ioValue c .ipcSync).toNat.testBit i) ∧
      ∀ (c : Processor) (a : BusAccess) (log : Log),
        (∃ i < 16, a.syncBit? s.system c i ≠ none) →
        let u := (t.access c log a).1
        let before := t.system.interrupts.get c.other
        u = { t with
            system := { t.system with ipc := u.system.ipc, interrupts := u.system.interrupts } } ∧
          u.system.interrupts.get c = t.system.interrupts.get c ∧
          u.system.interrupts.get c.other =
            { before with
              raised :=
                if a.syncBit? s.system c 13 = some true ∧ lastSync s.system c.other 14 list = true
                then before.raised ||| 0x10000
                else before.raised } ∧
          ∀ (q : Processor), ∀ i < 16, (u.system.ioValue q .ipcSync).toNat.testBit i =
            match syncSource q i with
            | none => false
            | some (c', j) =>
              (if c' = c then a.syncBit? s.system c j else none).getD
                ((t.system.ioValue q .ipcSync).toNat.testBit i) := by
  intro t
  have hclean : t.system.ipc.Clean := by
    apply clean_interleaved
    rw [hnew]
    exact fun p => by cases p <;> rfl
  have hwindows : t.system.control = s.system.control := s.windows_interleaved list log
  -- Before the first write all bits are zero.
  have hlast : ∀ c, ∀ i < 16, Ipc.keptMask.toNat.testBit i = true →
      (t.system.ipc.registers.get c).toNat.testBit i = lastSync s.system c i list := by
    intro c i hi hkept
    refine (s.testBit_interleaved list log c hi hkept).trans ?_
    have hzero : (s.system.ipc.registers.get c).toNat.testBit i = false := by
      rw [hnew]
      cases c <;> exact Nat.zero_testBit i
    rw [hzero]
    rfl
  refine ⟨?_, ?_, ?_⟩
  · intro c i hi
    rw [testBit_syncSource hclean c hi]
    cases hsource : syncSource c i with
    | none => rfl
    | some source =>
      obtain ⟨hj, hkept⟩ := keptMask_of_syncSource hi hsource
      exact hlast source.1 source.2 hj hkept
  · intro c w address log hw hio htarget i hi j hj hplace
    exact t.testBit_read_sync hw hio htarget log hi hj hplace
  · intro c a log hcovers u before
    have hsame : ∀ i, a.syncBit? t.system c i = a.syncBit? s.system c i :=
      fun i => BusAccess.syncBit?_congr hwindows c i a
    simp only [← hsame] at hcovers ⊢
    rw [← hlast c.other 14 (by decide) rfl]
    obtain ⟨hrest, hself, hother⟩ := sync_effect hclean c log a hcovers
    exact ⟨hrest, hself, hother, fun q i hi => testBit_ioValue_access hclean c log a q hi⟩

/-- The companion processor shows a five and asks for an interrupt, the main processor shows a ten
and permits interrupts from then on, and a last write covers nothing that is kept. -/
def exchange : List (Processor × BusAccess) :=
  [(.arm7, .write .word 0x04000180 0x2500), (.arm9, .write .half 0x04000180 0x4A00),
    (.arm7, .write .byte 0x04000180 0xFF)]

theorem synchronisation_exact_exchange :
    let t := ((Session.new {}).interleaved exchange {}).1
    let u := (t.access .arm7 {} (.write .byte 0x04000181 0x20)).1
    (∀ i < 16, (t.system.ioValue .arm9 .ipcSync).toNat.testBit i = Nat.testBit 0x4A05 i) ∧
      (∀ i < 16, (t.read .arm7 .half 0x04000180 {}).1.toNat.testBit i = Nat.testBit 0x050A i) ∧
      (u.system.interrupts.get .arm9).raised =
        (t.system.interrupts.get .arm9).raised ||| 0x10000 := by
  intro t u
  obtain ⟨hreads, hmap, hwrites⟩ :=
    synchronisation_exact (Session.new {}) rfl exchange {}
  refine ⟨?_, ?_, ?_⟩
  · intro i hi
    refine (hreads .arm9 i hi).trans ?_
    revert i
    decide
  · intro i hi
    refine (hmap .arm7 .half 0x04000180 {} (by decide) (by decide) rfl i hi i hi rfl).trans ?_
    refine (hreads .arm7 i hi).trans ?_
    revert i
    decide
  · obtain ⟨-, -, hother, -⟩ :=
      hwrites .arm7 (.write .byte 0x04000181 0x20) {} ⟨8, by decide, by decide⟩
    have hasked : BusAccess.syncBit? (Session.new {}).system .arm7 13
          (.write .byte 0x04000181 0x20) = some true ∧
        lastSync (Session.new {}).system Processor.arm7.other 14 exchange = true := by decide
    rw [if_pos hasked] at hother
    exact congrArg InterruptController.raised hother

end Session
end Handheld.Console
