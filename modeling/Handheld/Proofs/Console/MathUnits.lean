import Mathlib
import Handheld.Proofs.Console.Isolation
import Handheld.Proofs.Console.Quotients
import Handheld.Proofs.Cpu.ExactSums

/-!
# The math units after any accesses

Whatever the main processor reads and writes, in accesses of any width: once it has written to an
input register of a math unit, the results of that unit are those of the operands that its input
registers hold, and each bit of these registers is the one that was written last. Main statement:
`Session.math_units_exact`, together with the firmware's division, which agrees with the divider.
-/

namespace Handheld.Console

open IoRegister Word Address

/-! ## Input registers -/

namespace IoRegister

/-- The registers from which a division is computed. -/
def divisionInputs : List IoRegister :=
  [divisionControl, numerator false, numerator true, denominator false, denominator true]

/-- The registers from which a square root is computed. -/
def squareRootInputs : List IoRegister :=
  [squareRootControl, squareRootInput false, squareRootInput true]

/-- The input registers of both units. -/
def mathInputs : List IoRegister := divisionInputs ++ squareRootInputs

/-- How many bits of an input register count. Those of a control register are the mode. -/
def inputBits : IoRegister → Nat
  | divisionControl => 2
  | squareRootControl => 1
  | _ => 32

/-- Each input register is a word of the main processor's. -/
theorem word_of_mathInput : ∀ r ∈ mathInputs,
    r ∈ all .arm9 ∧ r.isWritable = true ∧ r.size = 4 ∧ 4 ∣ r.start := by
  decide

end IoRegister

namespace System

section

variable {s : System} {p : Processor} {r : IoRegister} {l : Lanes}

/-- A write to a register that is none of its inputs leaves a unit alone. -/
theorem divider_writeIo_other (hr : r ∉ divisionInputs) (log : Log) :
    (s.writeIo p l log r).1.divider = s.divider := by
  cases r with
  | divisionControl => exact absurd (by decide) hr
  | numerator high | denominator high => exact absurd (by cases high <;> decide) hr
  | timerControl i =>
    show (s.writeTimerControl p i l log).1.divider = _
    rw [queue_writeTimerControl]
  | ipcSync =>
    show (s.writeIpc p l).divider = _
    unfold writeIpc
    dsimp only
    split <;> rfl
  | _ => rfl

theorem squareRoot_writeIo_other (hr : r ∉ squareRootInputs) (log : Log) :
    (s.writeIo p l log r).1.squareRoot = s.squareRoot := by
  cases r with
  | squareRootControl => exact absurd (by decide) hr
  | squareRootInput high => exact absurd (by cases high <;> decide) hr
  | timerControl i =>
    show (s.writeTimerControl p i l log).1.squareRoot = _
    rw [queue_writeTimerControl]
  | ipcSync =>
    show (s.writeIpc p l).squareRoot = _
    unfold writeIpc
    dsimp only
    split <;> rfl
  | _ => rfl

/-- A write to an input register starts the unit with the inputs that it leaves. -/
theorem divider_writeIo (hr : r ∈ divisionInputs) (log : Log) :
    ∃ u : Divider, (s.writeIo p l log r).1.divider = u.update.setBusy true := by
  cases r with
  | divisionControl | numerator | denominator => exact ⟨_, rfl⟩
  | _ => exact absurd hr (by simp [divisionInputs])

theorem squareRoot_writeIo (hr : r ∈ squareRootInputs) (log : Log) :
    ∃ u : SquareRoot, (s.writeIo p l log r).1.squareRoot = u.update.setBusy true := by
  cases r with
  | squareRootControl | squareRootInput => exact ⟨_, rfl⟩
  | _ => exact absurd hr (by simp [squareRootInputs])

end

/-- A bit of an input register that a write covers is taken from it. -/
theorem testBit_storedBits_of_covered (s : System) {p : Processor} {r : IoRegister} {l : Lanes}
    (hr : r ∈ mathInputs) (log : Log) {i : Nat} (hi : i < r.inputBits)
    (hcovered : l.covers i = true) :
    ((s.writeIo p l log r).1.storedBits p r).testBit i = l.value.toNat.testBit i := by
  have hraw : l.raw.toNat.testBit i = l.value.toNat.testBit i := by
    rw [Lanes.testBit_raw, hcovered, Bool.true_and]
  cases r with
  | divisionControl =>
    rw [storedBits_writeIo_of_forgets _ _ _ _ (by decide), UInt32.toNat_and, Nat.testBit_and, hraw]
    have hmask : ∀ i < 2, (divisionControl.rewrittenBits).toNat.testBit i = true := by decide
    rw [hmask i hi, Bool.and_true]
  | squareRootControl =>
    rw [storedBits_writeIo_of_forgets _ _ _ _ (by decide), UInt32.toNat_and, Nat.testBit_and, hraw]
    have hmask : ∀ i < 1, (squareRootControl.rewrittenBits).toNat.testBit i = true := by decide
    rw [hmask i hi, Bool.and_true]
  | numerator high =>
    show (halfOf (l.mergeHalf high s.divider.numerator) high).toNat.testBit i = _
    rw [Lanes.halfOf_mergeHalf, if_pos rfl, Lanes.testBit_merge _ _ hi, hcovered, if_pos rfl]
  | denominator high =>
    show (halfOf (l.mergeHalf high s.divider.denominator) high).toNat.testBit i = _
    rw [Lanes.halfOf_mergeHalf, if_pos rfl, Lanes.testBit_merge _ _ hi, hcovered, if_pos rfl]
  | squareRootInput high =>
    show (halfOf (l.mergeHalf high s.squareRoot.input) high).toNat.testBit i = _
    rw [Lanes.halfOf_mergeHalf, if_pos rfl, Lanes.testBit_merge _ _ hi, hcovered, if_pos rfl]
  | _ => exact absurd hr (by simp [mathInputs, divisionInputs, squareRootInputs])

end System

/-! ## Accesses -/

section Effects

variable {p : Processor} {x : Parts} {r : IoRegister} {a value mask : UInt32}

/-- An access that lies in none of the input registers leaves the math units alone. -/
theorem math_ioEffect {left skip : Nat} (ha : a.toNat + left < 2 ^ 32)
    (hout : ∀ r ∈ mathInputs, a.toNat + left ≤ r.start ∨ r.start + r.size ≤ a.toNat) :
    (ioEffect p left skip a value mask x).2.divider = x.2.divider ∧
      (ioEffect p left skip a value mask x).2.squareRoot = x.2.squareRoot := by
  induction left generalizing skip a value mask x with
  | zero => exact ⟨rfl, rfl⟩
  | succ left ih =>
    have hnext : (a + 1).toNat = a.toNat + 1 := toNat_add_one (by omega)
    have hrest : ∀ r ∈ mathInputs,
        (a + 1).toNat + left ≤ r.start ∨ r.start + r.size ≤ (a + 1).toNat := by
      intro r hr
      have := hout r hr
      omega
    cases skip with
    | succ skip => exact ih (by omega) hrest
    | zero =>
      cases hfirst : writableAt? p a with
      | none =>
        rw [ioEffect_none hfirst]
        exact ih (by omega) hrest
      | some first =>
        obtain ⟨-, -, hlow, hhigh⟩ := writableAt?_eq_some_iff.mp hfirst
        have hother : first ∉ mathInputs := by
          intro hmem
          have := hout first hmem
          omega
        obtain ⟨hdivision, hinput⟩ := not_or.mp (mt List.mem_append.mpr hother)
        rw [ioEffect_some hfirst]
        obtain ⟨hdivider, hroot⟩ : _ ∧ _ :=
          ih (x := registerEffect p (first.lanesAt a value mask) first x) (by omega) hrest
        exact ⟨hdivider.trans (System.divider_writeIo_other hdivision {}),
          hroot.trans (System.squareRoot_writeIo_other hinput {})⟩

/-- An aligned access lies within an input register, or outside of all of them. -/
theorem input_cases {w : Width} (haligned : w.bytes.toNat ∣ a.toNat) :
    (∃ r ∈ mathInputs, writableAt? .arm9 a = some r ∧
        a.toNat + w.bytes.toNat ≤ r.start + r.size) ∨
      ∀ r ∈ mathInputs, writableAt? .arm9 a ≠ some r ∧
        (a.toNat + w.bytes.toNat ≤ r.start ∨ r.start + r.size ≤ a.toNat) := by
  have hwidth : w.bytes.toNat = 1 ∨ w.bytes.toNat = 2 ∨ w.bytes.toNat = 4 := by
    cases w <;> decide
  by_cases hin : ∃ r ∈ mathInputs, r.start ≤ a.toNat ∧ a.toNat < r.start + r.size
  · obtain ⟨r, hr, hlow, hhigh⟩ := hin
    obtain ⟨hall, hwritable, hsize, hstart⟩ := word_of_mathInput r hr
    refine .inl ⟨r, hr, writableAt?_eq_some_iff.mpr ⟨hall, hwritable, hlow, hhigh⟩, ?_⟩
    rcases hwidth with hw | hw | hw <;> rw [hw] at haligned ⊢ <;> omega
  · refine .inr fun r hr => ⟨fun hfound => ?_, ?_⟩
    · obtain ⟨-, -, hlow, hhigh⟩ := writableAt?_eq_some_iff.mp hfound
      exact hin ⟨r, hr, hlow, hhigh⟩
    · obtain ⟨-, -, hsize, hstart⟩ := word_of_mathInput r hr
      have hnot : ¬ (r.start ≤ a.toNat ∧ a.toNat < r.start + r.size) := fun h => hin ⟨r, hr, h⟩
      rcases hwidth with hw | hw | hw <;> rw [hw] at haligned ⊢ <;> omega

/-- An access that leads elsewhere than to devices leaves all of them alone. -/
theorem devices_writeEffect {w : Width} {address : UInt32}
    (h : x.2.target p (alignDown address w.bytes) true ≠ .io) :
    (writeEffect p w address value x).2.control = x.2.control ∧
      (writeEffect p w address value x).2.divider = x.2.divider ∧
      (writeEffect p w address value x).2.squareRoot = x.2.squareRoot := by
  unfold writeEffect
  cases htarget : x.2.target p (alignDown address w.bytes) true with
  | io => exact absurd htarget h
  | memory | stub | unmapped => exact ⟨rfl, rfl, rfl⟩

theorem writeEffect_of_io {w : Width} {address : UInt32}
    (h : x.2.target p (alignDown address w.bytes) true = .io) :
    writeEffect p w address value x =
      ioEffect p w.bytes.toNat 0 (alignDown address w.bytes &&& 0xFFFFFF) (w.truncate value)
        (w.truncate 0xFFFFFFFF) x := by
  unfold writeEffect
  rw [h]

end Effects

namespace Session

/-- The device register that an access of the main processor writes first. -/
def BusAccess.reached? (s : System) : BusAccess → Option IoRegister
  | .read .. => none
  | .write w address _ =>
    if s.target .arm9 (alignDown address w.bytes) true = .io then
      writableAt? .arm9 (alignDown address w.bytes &&& 0xFFFFFF)
    else none

/-- What a write puts into a register, from the first byte on that it reaches there. -/
def BusAccess.lanes (r : IoRegister) : BusAccess → Lanes
  | .read .. => ⟨0, 0⟩
  | .write w address value =>
    r.lanesAt (alignDown address w.bytes &&& 0xFFFFFF) (w.truncate value) (w.truncate 0xFFFFFFFF)

section

variable {s t : System} {a : BusAccess} {r : IoRegister}

theorem BusAccess.reached?_write (s : System) (w : Width) (address value : UInt32) :
    (BusAccess.write w address value).reached? s =
      if s.target .arm9 (alignDown address w.bytes) true = .io then
        writableAt? .arm9 (alignDown address w.bytes &&& 0xFFFFFF)
      else none := rfl

theorem toNat_place (w : Width) (address : UInt32) :
    w.bytes.toNat ∣ (alignDown address w.bytes &&& 0xFFFFFF).toNat ∧
      (alignDown address w.bytes &&& 0xFFFFFF).toNat < 2 ^ 24 := by
  rw [toNat_area]
  exact ⟨(Nat.dvd_mod_iff (bytes_dvd w (by decide))).mpr (bytes_dvd_alignDown w address),
    Nat.mod_lt _ (by decide)⟩

/-- An access writes one input register, or it leaves the math units and the windows alone. -/
theorem access_cases (s : Session) (a : BusAccess) (log : Log) :
    (∃ r ∈ mathInputs, a.reached? s.system = some r ∧
        (s.access .arm9 log a).1.system = (s.system.writeIo .arm9 (a.lanes r) {} r).1) ∨
      (∀ r ∈ mathInputs, a.reached? s.system ≠ some r) ∧
        (s.access .arm9 log a).1.system.control = s.system.control ∧
        (s.access .arm9 log a).1.system.divider = s.system.divider ∧
        (s.access .arm9 log a).1.system.squareRoot = s.system.squareRoot := by
  cases a with
  | read w address =>
    have hsame : (s.access .arm9 log (.read w address)).1 = s := read_fst ..
    rw [hsame]
    exact .inr ⟨fun r _ => nofun, rfl, rfl, rfl⟩
  | write w address value =>
    have hsystem : (s.access .arm9 log (.write w address value)).1.system =
        (writeEffect .arm9 w address value (s.partsOf .arm9)).2 :=
      congrArg Session.system (write_fst ..)
    rw [hsystem, BusAccess.reached?_write]
    obtain ⟨haligned, hsmall⟩ := toNat_place w address
    by_cases htarget : s.system.target .arm9 (alignDown address w.bytes) true = .io
    · rw [if_pos htarget, writeEffect_of_io (x := s.partsOf .arm9) htarget]
      rcases input_cases haligned with ⟨r, hr, hfound, hwithin⟩ | hout
      · refine .inl ⟨r, hr, hfound, ?_⟩
        have hbytes : w.bytes.toNat = w.bytes.toNat - 1 + 1 := by cases w <;> rfl
        rw [hbytes] at hwithin ⊢
        rw [ioEffect_within hfound hwithin]
        rfl
      · refine .inr ⟨fun r hr => (hout r hr).1, control_ioEffect .., ?_⟩
        have hwidth : w.bytes.toNat ≤ 4 := by cases w <;> decide
        exact math_ioEffect (x := s.partsOf .arm9) (by omega) fun r hr => (hout r hr).2
    · rw [if_neg htarget]
      exact .inr ⟨fun r _ => nofun, devices_writeEffect (x := s.partsOf .arm9) htarget⟩

/-- A bit of an input register after an access that reaches the register: taken from the value if
it is covered, else as before. The control registers forget the bytes that are not written. -/
def BusAccess.bitAfter (s : System) (r : IoRegister) (i : Nat) (bit : Bool) (a : BusAccess) :
    Bool :=
  match a with
  | .read .. => bit
  | .write w address value =>
    let first := 8 * ((alignDown address w.bytes).toNat % 4)
    if a.reached? s ≠ some r then bit
    else if first ≤ i ∧ i < first + 8 * w.bytes.toNat then value.toNat.testBit (i - first)
    else if r.rewrittenBits ≠ 0 then false
    else bit

theorem testBit_storedBits_reached {w : Width} {address value : UInt32} (hr : r ∈ mathInputs)
    (hreached : (BusAccess.write w address value).reached? s = some r) {i : Nat}
    (hi : i < r.inputBits) :
    ((s.writeIo .arm9 ((BusAccess.write w address value).lanes r) {} r).1.storedBits
        .arm9 r).testBit i =
      (BusAccess.write w address value).bitAfter s r i ((s.storedBits .arm9 r).testBit i) := by
  let first := 8 * ((alignDown address w.bytes).toNat % 4)
  let place := alignDown address w.bytes &&& 0xFFFFFF
  obtain ⟨-, -, hsize, hstart⟩ := word_of_mathInput r hr
  have hfound : writableAt? .arm9 place = some r := by
    rw [BusAccess.reached?_write] at hreached
    split at hreached
    · exact hreached
    · cases hreached
  obtain ⟨-, -, hlow, hhigh⟩ := writableAt?_eq_some_iff.mp hfound
  have hplace : 8 * (place.toNat - r.start) = first := by
    have harea : place.toNat = (alignDown address w.bytes).toNat % 2 ^ 24 := toNat_area _
    omega
  have hbits : i < 32 := by
    refine hi.trans_le ?_
    unfold inputBits
    split <;> decide
  let lanes : Lanes := r.lanesAt place (w.truncate value) (w.truncate 0xFFFFFFFF)
  have hcovers : lanes.covers i = _ := covers_lanesAt hfound (toNat_mask w) hbits
  have hvalue : lanes.value.toNat.testBit i = _ := value_lanesAt hfound hbits
  rw [hplace] at hcovers hvalue
  show _ = if _ then _ else _
  rw [if_neg (not_not_intro hreached)]
  by_cases hcovered : first ≤ i ∧ i < first + 8 * w.bytes.toNat
  · have hlanes : ((BusAccess.write w address value).lanes r).covers i = true := by
      refine hcovers.trans (decide_eq_true ?_)
      omega
    rw [System.testBit_storedBits_of_covered s hr {} hi hlanes, if_pos hcovered]
    refine hvalue.trans ?_
    rw [decide_eq_true hcovered.1, Bool.true_and, testBit_truncate _ _ (by omega)]
  · have hlanes : ((BusAccess.write w address value).lanes r).covers i = false := by
      refine hcovers.trans (decide_eq_false ?_)
      omega
    rw [System.testBit_storedBits_writeIo s .arm9 {} (by omega) hlanes, if_neg hcovered]

/-- What the input registers hold is settled by the units. -/
theorem storedBits_math (hr : r ∈ mathInputs) (hdivider : t.divider = s.divider)
    (hroot : t.squareRoot = s.squareRoot) : t.storedBits .arm9 r = s.storedBits .arm9 r := by
  cases r with
  | divisionControl | numerator | denominator =>
    unfold System.storedBits
    rw [hdivider]
  | squareRootControl | squareRootInput =>
    unfold System.storedBits
    rw [hroot]
  | _ => exact absurd hr (by simp [mathInputs, divisionInputs, squareRootInputs])

theorem BusAccess.bitAfter_of_not_reached (hother : a.reached? s ≠ some r) (i : Nat) (bit : Bool) :
    a.bitAfter s r i bit = bit := by
  cases a with
  | read => rfl
  | write w address value => exact if_pos hother

end

/-! ### One access -/

section

variable (s : Session) (a : BusAccess) (log : Log)

theorem control_access : (s.access .arm9 log a).1.system.control = s.system.control := by
  rcases s.access_cases a log with ⟨r, -, -, hwritten⟩ | ⟨-, hcontrol, -⟩
  · rw [hwritten]
    exact System.control_writeIo ..
  · exact hcontrol

theorem testBit_storedBits_access {r : IoRegister} (hr : r ∈ mathInputs) {i : Nat}
    (hi : i < r.inputBits) :
    ((s.access .arm9 log a).1.system.storedBits .arm9 r).testBit i =
      a.bitAfter s.system r i ((s.system.storedBits .arm9 r).testBit i) := by
  rcases s.access_cases a log with ⟨first, -, hreached, hwritten⟩ | ⟨hother, -, hdivider, hroot⟩
  · rw [hwritten]
    by_cases hsame : first = r
    · subst hsame
      cases a with
      | read => cases hreached
      | write w address value => exact testBit_storedBits_reached hr hreached hi
    · have hnot : a.reached? s.system ≠ some r := by
        rw [hreached]
        exact fun h => hsame (Option.some.inj h)
      rw [System.storedBits_writeIo_of_ne _ _ _ _ (Ne.symm hsame),
        BusAccess.bitAfter_of_not_reached hnot]
  · rw [storedBits_math hr hdivider hroot, BusAccess.bitAfter_of_not_reached (hother r hr)]

/-- The results of a unit are right after an access that writes one of its inputs, and stay so. -/
theorem computed_divider_access
    (h : s.system.divider.Computed ∨ ∃ r ∈ divisionInputs, a.reached? s.system = some r) :
    (s.access .arm9 log a).1.system.divider.Computed := by
  rcases s.access_cases a log with ⟨r, hr, hreached, hwritten⟩ | ⟨hother, -, hdivider, -⟩
  · rw [hwritten]
    by_cases hinput : r ∈ divisionInputs
    · obtain ⟨u, hu⟩ :=
        System.divider_writeIo (s := s.system) (p := .arm9) (l := a.lanes r) hinput {}
      rw [hu]
      exact u.computed_update.setBusy true
    · rw [System.divider_writeIo_other hinput]
      refine h.resolve_right ?_
      rintro ⟨r', hr', hreached'⟩
      obtain rfl := Option.some.inj (hreached.symm.trans hreached')
      exact hinput hr'
  · rw [hdivider]
    refine h.resolve_right ?_
    rintro ⟨r, hr, hreached⟩
    exact hother r (List.mem_append_left _ hr) hreached

theorem computed_squareRoot_access
    (h : s.system.squareRoot.Computed ∨ ∃ r ∈ squareRootInputs, a.reached? s.system = some r) :
    (s.access .arm9 log a).1.system.squareRoot.Computed := by
  rcases s.access_cases a log with ⟨r, hr, hreached, hwritten⟩ | ⟨hother, -, -, hroot⟩
  · rw [hwritten]
    by_cases hinput : r ∈ squareRootInputs
    · obtain ⟨u, hu⟩ :=
        System.squareRoot_writeIo (s := s.system) (p := .arm9) (l := a.lanes r) hinput {}
      rw [hu]
      exact u.computed_update.setBusy true
    · rw [System.squareRoot_writeIo_other hinput]
      refine h.resolve_right ?_
      rintro ⟨r', hr', hreached'⟩
      obtain rfl := Option.some.inj (hreached.symm.trans hreached')
      exact hinput hr'
  · rw [hroot]
    refine h.resolve_right ?_
    rintro ⟨r, hr, hreached⟩
    exact hother r (List.mem_append_right _ hr) hreached

end

/-! ### All accesses -/

/-- What an access reaches is settled by the windows. -/
theorem BusAccess.reached?_congr {s t : System} (h : t.control = s.control) (a : BusAccess) :
    a.reached? t = a.reached? s := by
  cases a with
  | read => rfl
  | write w address value =>
    have htarget : t.target .arm9 (alignDown address w.bytes) true =
        s.target .arm9 (alignDown address w.bytes) true := target_after h rfl
    rw [reached?_write, reached?_write, htarget]

theorem BusAccess.bitAfter_congr {s t : System} (h : t.control = s.control) (r : IoRegister)
    (i : Nat) : bitAfter t r i = bitAfter s r i := by
  funext bit a
  unfold bitAfter
  cases a with
  | read => rfl
  | write => simp only [reached?_congr h]

/-- Each bit of an input register is the last one that was written. -/
theorem testBit_storedBits_accesses (s : Session) (list : List BusAccess) (log : Log)
    {r : IoRegister} (hr : r ∈ mathInputs) {i : Nat} (hi : i < r.inputBits) :
    ((s.accesses .arm9 list log).1.system.storedBits .arm9 r).testBit i =
      list.foldl (BusAccess.bitAfter s.system r i) ((s.system.storedBits .arm9 r).testBit i) := by
  induction list generalizing s log with
  | nil => rfl
  | cons a rest ih =>
    refine (ih (s.access .arm9 log a).1 (s.access .arm9 log a).2).trans ?_
    rw [testBit_storedBits_access _ _ _ hr hi,
      BusAccess.bitAfter_congr (s.control_access a log)]
    rfl

theorem computed_divider_accesses (s : Session) (list : List BusAccess) (log : Log)
    (h : s.system.divider.Computed ∨
      ∃ a ∈ list, ∃ r ∈ divisionInputs, a.reached? s.system = some r) :
    (s.accesses .arm9 list log).1.system.divider.Computed := by
  induction list generalizing s log with
  | nil => exact h.resolve_right (by simp)
  | cons a rest ih =>
    refine ih (s.access .arm9 log a).1 (s.access .arm9 log a).2 ?_
    simp only [List.mem_cons, exists_eq_or_imp] at h
    rcases or_assoc.mpr h with hnow | ⟨b, hb, r, hr, hreached⟩
    · exact .inl (s.computed_divider_access a log hnow)
    · refine .inr ⟨b, hb, r, hr, ?_⟩
      rwa [BusAccess.reached?_congr (s.control_access a log)]

theorem computed_squareRoot_accesses (s : Session) (list : List BusAccess) (log : Log)
    (h : s.system.squareRoot.Computed ∨
      ∃ a ∈ list, ∃ r ∈ squareRootInputs, a.reached? s.system = some r) :
    (s.accesses .arm9 list log).1.system.squareRoot.Computed := by
  induction list generalizing s log with
  | nil => exact h.resolve_right (by simp)
  | cons a rest ih =>
    refine ih (s.access .arm9 log a).1 (s.access .arm9 log a).2 ?_
    simp only [List.mem_cons, exists_eq_or_imp] at h
    rcases or_assoc.mpr h with hnow | ⟨b, hb, r, hr, hreached⟩
    · exact .inl (s.computed_squareRoot_access a log hnow)
    · refine .inr ⟨b, hb, r, hr, ?_⟩
      rwa [BusAccess.reached?_congr (s.control_access a log)]

end Session

/-! ## The firmware's division -/

namespace Firmware

/-- The magnitude of a quotient, also of the least one. -/
theorem toNat_magnitude (q : Int32) :
    (if q < 0 then (-q).toUInt32 else q.toUInt32).toNat = q.toInt.natAbs := by
  have hq := toInt32_cases q.toUInt32
  have hsigned : q.toUInt32.toInt32.toInt = q.toInt := rfl
  rw [hsigned] at hq
  have hneg : (-q).toUInt32.toNat = (2 ^ 32 - q.toUInt32.toNat) % 2 ^ 32 :=
    BitVec.toNat_neg q.toBitVec
  have hzero : (0 : Int32).toInt = 0 := rfl
  by_cases hsign : q < 0
  · rw [if_pos hsign, hneg]
    rw [Int32.lt_iff_toInt_lt, hzero] at hsign
    omega
  · rw [if_neg hsign]
    rw [Int32.lt_iff_toInt_lt, hzero] at hsign
    omega

/-- The processor after a division by the firmware. -/
theorem cpu_serveNumber_div (p : Processor) (b : Board System) :
    let results := divide (b.cpu.reg 0).toInt32 (b.cpu.reg 1).toInt32
    (serveNumber p 9 b).2.cpu =
      ((b.cpu.setReg 0 results.1.toUInt32).setReg 1 results.2.toUInt32).setReg 3
        (if results.1 < 0 then (-results.1).toUInt32 else results.1.toUInt32) := by
  cases p <;> rfl

/-- The firmware's results are the low halves of those of a divider in the narrow mode. -/
theorem serveNumber_div (p : Processor) (b : Board System) {u : Divider}
    (hmode : u.mode = .bits32By32) (hnumerator : u.numerator.toUInt32 = b.cpu.reg 0)
    (hdenominator : u.denominator.toUInt32 = b.cpu.reg 1) :
    let served := (serveNumber p 9 b).2
    served.cpu.reg 0 = u.update.quotient.toUInt32 ∧
      served.cpu.reg 1 = u.update.remainder.toUInt32 ∧
      (served.cpu.reg 3).toNat = (served.cpu.reg 0).toInt32.toInt.natAbs := by
  intro served
  let n := (b.cpu.reg 0).toInt32
  let d := (b.cpu.reg 1).toInt32
  have hunit : u.update.quotient = (Divider.divide32 n d).1 ∧
      u.update.remainder = (Divider.divide32 n d).2 := by
    unfold Divider.update
    rw [hmode]
    dsimp only
    rw [hnumerator, hdenominator]
    exact ⟨rfl, rfl⟩
  obtain ⟨hquotient, hremainder⟩ := divide_eq n d
  have hzero : served.cpu.reg 0 = (divide n d).1.toUInt32 := by
    rw [cpu_serveNumber_div, CpuState.reg_setReg, if_neg (by decide), CpuState.reg_setReg,
      if_neg (by decide), CpuState.reg_setReg, if_pos rfl]
  have hone : served.cpu.reg 1 = (divide n d).2.toUInt32 := by
    rw [cpu_serveNumber_div, CpuState.reg_setReg, if_neg (by decide), CpuState.reg_setReg,
      if_pos rfl]
  have hthree : (served.cpu.reg 3).toNat = (divide n d).1.toInt.natAbs := by
    rw [cpu_serveNumber_div, CpuState.reg_setReg, if_pos rfl]
    exact toNat_magnitude _
  refine ⟨?_, ?_, ?_⟩
  · rw [hzero, hunit.1, hquotient]
  · rw [hone, hunit.2, hremainder]
  · rw [hzero, hthree]
    rfl

end Firmware

/-- **The math units compute what they say.** Take any session and let the main processor read and
write its memory map in any way, with at least one write to an input register of each math unit.
Then each bit of the input registers is the one that was written last, and the results are those of
the operands that they hold: quotient and remainder of the signed operands that the mode selects,
rounded toward zero, or what stands for them if there are none, and the root, rounded down. No
division that this takes is one by zero or out of range. Division by the firmware gives the low
halves of what the divider gives in its narrow mode, and the magnitude of the quotient. -/
theorem Session.math_units_exact (s : Session) (list : List BusAccess) (log : Log)
    (hdivision : ∃ a ∈ list, ∃ r ∈ divisionInputs, a.reached? s.system = some r)
    (hroot : ∃ a ∈ list, ∃ r ∈ squareRootInputs, a.reached? s.system = some r) :
    let t := (s.accesses .arm9 list log).1.system
    (∀ r ∈ mathInputs, ∀ i < r.inputBits, (t.storedBits .arm9 r).testBit i =
        list.foldl (BusAccess.bitAfter s.system r i) ((s.system.storedBits .arm9 r).testBit i)) ∧
      t.divider.Computed ∧ t.squareRoot.Computed ∧
      (∀ u : Divider, u.update? = some u.update) ∧
      (∀ n d, Firmware.divide? n d = some (Firmware.divide n d)) ∧
      ∀ (p : Processor) (b : Board System) (u : Divider), u.mode = .bits32By32 →
        u.numerator.toUInt32 = b.cpu.reg 0 → u.denominator.toUInt32 = b.cpu.reg 1 →
        let served := (Firmware.serveNumber p 9 b).2
        served.cpu.reg 0 = u.update.quotient.toUInt32 ∧
          served.cpu.reg 1 = u.update.remainder.toUInt32 ∧
          (served.cpu.reg 3).toNat = (served.cpu.reg 0).toInt32.toInt.natAbs := by
  intro t
  refine ⟨fun r hr i hi => s.testBit_storedBits_accesses list log hr hi,
    s.computed_divider_accesses list log (.inr hdivision),
    s.computed_squareRoot_accesses list log (.inr hroot), Divider.update?_eq,
    Firmware.divide?_eq, fun p b u hmode hnumerator hdenominator => ?_⟩
  exact Firmware.serveNumber_div p b hmode hnumerator hdenominator

/-- The numerator -100 in two halves, the denominator 7 as a word, and the input of a root as a byte
and a word after the wide mode is chosen. -/
def Session.operandsWritten : List BusAccess :=
  [.write .half 0x04000292 0xFFFF, .write .half 0x04000290 0xFF9C, .write .word 0x04000298 7,
    .write .half 0x040002B0 1, .write .byte 0x040002B8 0x90, .write .word 0x040002BC 1]

theorem Session.math_units_exact_halves :
    let t := ((Session.new {}).accesses .arm9 operandsWritten {}).1.system
    t.divider.quotient.toInt64.toInt = -14 ∧ t.divider.remainder.toInt64.toInt = -2 ∧
      t.squareRoot.operand = 0x100000090 ∧ t.squareRoot.Computed := by
  intro t
  have hexact := Session.math_units_exact (Session.new {}) operandsWritten {}
    ⟨.write .word 0x04000298 7, by simp [operandsWritten], denominator false, by decide, by decide⟩
    ⟨.write .half 0x040002B0 1, by simp [operandsWritten], squareRootControl, by decide, by decide⟩
  have hdivider : t.divider.Computed := hexact.2.1
  have hroot : t.squareRoot.Computed := hexact.2.2.1
  have hn : t.divider.selectedNumerator = -100 := by decide +kernel
  have hd : t.divider.selectedDenominator = 7 := by decide +kernel
  have hx : t.squareRoot.operand = 0x100000090 := by decide +kernel
  -- Only what the theorem says of the session is used from here on.
  clear_value t
  obtain ⟨hquotient, hremainder⟩ := hdivider.divides.exact (by rw [hd]; decide)
    (fun h => by rw [hd] at h; exact absurd h.2 (by decide))
  rw [hn, hd] at hquotient hremainder
  exact ⟨hquotient, hremainder, hx, hroot⟩

end Handheld.Console
