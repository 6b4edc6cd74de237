import Mathlib
import Handheld.Proofs.Console.Chronicles
import Handheld.Proofs.Console.FreeRunningTimer
import Handheld.Proofs.Console.Ticking

/-!
# Timers that count overflows

The timers after one that runs over, as far as they are on and count up, are the digits of a number
in a mixed radix, `Timers.number`: each counts from its reload value to the end of its range. An
overflow adds one to that number, modulo the product of all radices, and raises the interrupts of
the timers that have wrapped. Main statement: `Session.cascades_exact`.

The recursion of `Timers.overflowFrom` is a carry through the list of these timers, `Timers.carry`.
What it does to the number is proved by induction on the list.
-/

namespace Handheld.Console

open Word
open Happening (overflows)

namespace Timers

variable {t t' : Timers} {c : InterruptController} {i j : Fin 4}

/-! ## The timers of a cascade -/

/-- Whether a timer is on and counts overflows. -/
def countsOverflows (t : Timers) (j : Fin 4) : Bool :=
  (t.control.get j).isEnabled && (t.control.get j).countsUp

/-- The timers that an overflow of a timer can move: those after it up to the first that does not
count overflows. -/
def cascade (t : Timers) (i : Fin 4) : List (Fin 4) :=
  ((List.finRange 4).drop (i.val + 1)).takeWhile t.countsOverflows

theorem mem_cascade {k : Fin 4} :
    k ∈ t.cascade i ↔ i < k ∧ ∀ m, i < m → m ≤ k → t.countsOverflows m = true := by
  have hall : ∀ (up : Fin 4 → Bool) (i k : Fin 4),
      k ∈ ((List.finRange 4).drop (i.val + 1)).takeWhile up ↔
        i < k ∧ ∀ m, i < m → m ≤ k → up m = true := by decide
  exact hall t.countsOverflows i k

theorem nodup_cascade (t : Timers) (i : Fin 4) : (t.cascade i).Nodup :=
  (List.nodup_finRange 4).sublist ((List.takeWhile_sublist _).trans (List.drop_sublist _ _))

theorem not_mem_cascade_self : i ∉ t.cascade i := fun h => lt_irrefl i (mem_cascade.mp h).1

/-- The first timer of a cascade is the next one, and the others are in the cascade of that. -/
theorem cascade_succ {next : Fin 4} (h : next.val = i.val + 1) :
    t.cascade i = if t.countsOverflows next = true then next :: t.cascade next else [] := by
  have hdrop : (List.finRange 4).drop (i.val + 1) =
      next :: (List.finRange 4).drop (next.val + 1) := by
    revert i next
    decide
  unfold cascade
  rw [hdrop, List.takeWhile_cons]

/-- As long as the timers of a cascade are set as they are, they come first in it. -/
theorem cascade_prefix (h : ∀ j ∈ t.cascade i, t'.control.get j = t.control.get j) :
    t.cascade i <+: t'.cascade i := by
  have hlist : ∀ list : List (Fin 4),
      (∀ j ∈ list.takeWhile t.countsOverflows, t'.control.get j = t.control.get j) →
        list.takeWhile t.countsOverflows <+: list.takeWhile t'.countsOverflows := by
    intro list
    induction list with
    | nil => exact fun _ => List.prefix_rfl
    | cons j rest ih =>
      intro hsame
      rw [List.takeWhile_cons] at hsame ⊢
      by_cases hj : t.countsOverflows j = true
      · rw [if_pos hj] at hsame ⊢
        have hup : t'.countsOverflows j = true := by
          unfold countsOverflows at hj ⊢
          rwa [hsame j (by simp)]
        rw [List.takeWhile_cons, if_pos hup]
        exact (List.prefix_cons_inj j).mpr (ih fun k hk => hsame k (by simp [hk]))
      · rw [if_neg hj]
        exact List.nil_prefix
  exact hlist _ h

theorem le_of_mem_cascade {k : Fin 4} (h : k ∈ i :: t.cascade i) : i ≤ k := by
  rcases List.mem_cons.mp h with rfl | h
  · exact le_rfl
  · exact (mem_cascade.mp h).1.le

/-- A cascade ends before the next timer that counts time. -/
theorem lt_of_mem_cascade (hj : t.countsTime j = true) (hij : i < j) {k : Fin 4}
    (h : k ∈ i :: t.cascade i) : k < j := by
  rcases List.mem_cons.mp h with rfl | h
  · exact hij
  · have hzero : j ≠ 0 := by
      rintro rfl
      exact absurd hij (Fin.not_lt_zero i)
    have hdown : t.countsOverflows j = false := not_countsUp_of_countsTime hj hzero
    by_contra hle
    have hup := (mem_cascade.mp h).2 j hij (not_lt.mp hle)
    rw [hdown] at hup
    cases hup

/-- Two timers that count time have no timers in common that they move. -/
theorem disjoint_cascade (hi : t.countsTime i = true) (hj : t.countsTime j = true) (hij : j ≠ i)
    {k : Fin 4} (hk : k ∈ j :: t.cascade j) : k ∉ i :: t.cascade i := by
  intro hmem
  rcases lt_or_gt_of_ne hij with hlt | hlt
  · exact absurd (le_of_mem_cascade hmem) (not_le.mpr (lt_of_mem_cascade hi hlt hk))
  · exact absurd (le_of_mem_cascade hk) (not_le.mpr (lt_of_mem_cascade hj hlt hmem))

/-! ## The number that the timers count -/

/-- How far a counter is from its reload value. -/
def digit (t : Timers) (j : Fin 4) : ℕ := (t.counters.get j).toNat - (t.reload.get j).toNat

/-- How many values a counter runs through. -/
def radix (t : Timers) (j : Fin 4) : ℕ := 0x10000 - (t.reload.get j).toNat

/-- The number that the counters of some timers show, the first timer being the least significant
one. -/
def number (t : Timers) : List (Fin 4) → ℕ
  | [] => 0
  | j :: rest => t.digit j + t.radix j * t.number rest

/-- The product of the radices. -/
def modulus (t : Timers) (list : List (Fin 4)) : ℕ := (list.map t.radix).prod

/-- No counter is below its reload value. -/
def InRange (t : Timers) (list : List (Fin 4)) : Prop :=
  ∀ j ∈ list, t.reload.get j ≤ t.counters.get j

theorem number_congr {list : List (Fin 4)}
    (hreload : ∀ j ∈ list, t'.reload.get j = t.reload.get j)
    (hcounters : ∀ j ∈ list, t'.counters.get j = t.counters.get j) :
    t'.number list = t.number list := by
  induction list with
  | nil => rfl
  | cons j rest ih =>
    have hrest : t'.number rest = t.number rest :=
      ih (fun k hk => hreload k (by simp [hk])) fun k hk => hcounters k (by simp [hk])
    unfold number digit radix
    rw [hrest, hreload j (by simp), hcounters j (by simp)]

theorem modulus_congr {list : List (Fin 4)}
    (hreload : ∀ j ∈ list, t'.reload.get j = t.reload.get j) :
    t'.modulus list = t.modulus list := by
  unfold modulus
  congr 1
  apply List.map_congr_left
  intro j hj
  unfold radix
  rw [hreload j hj]

theorem digit_lt (h : t.reload.get j ≤ t.counters.get j) : t.digit j < t.radix j := by
  have hcounter := (t.counters.get j).toNat_lt
  rw [UInt16.le_iff_toNat_le] at h
  unfold digit radix
  omega

/-- The number is below the product of the radices. -/
theorem number_lt {list : List (Fin 4)} (h : t.InRange list) :
    t.number list < t.modulus list := by
  induction list with
  | nil => exact Nat.one_pos
  | cons j rest ih =>
    have hdigit := digit_lt (h j (by simp))
    have hrest : t.number rest + 1 ≤ t.modulus rest := ih fun k hk => h k (by simp [hk])
    calc t.digit j + t.radix j * t.number rest
        < t.radix j + t.radix j * t.number rest := Nat.add_lt_add_right hdigit _
      _ = t.radix j * (t.number rest + 1) := by ring
      _ ≤ t.radix j * t.modulus rest := Nat.mul_le_mul_left _ hrest
      _ = t.modulus (j :: rest) := by simp [modulus]

/-! ## Carrying -/

/-- A counter is given a value. -/
def withCounter (t : Timers) : (i : Fin 4) → (value : UInt16) → Timers
  | ⟨i, h⟩, value => { t with counters := t.counters.set i value h }

/-- A timer starts again from its reload value. -/
def restart (t : Timers) (i : Fin 4) : Timers := t.withCounter i (t.reload.get i)

/-- A counter moves on by one. -/
def increment (t : Timers) (i : Fin 4) : Timers := t.withCounter i (t.counters.get i + 1)

/-- The interrupt registers once a timer has run over. -/
def announce (t : Timers) (c : InterruptController) (i : Fin 4) : InterruptController :=
  if (t.control.get i).raises then c.request (Interrupt.timer i) else c

/-- Add one to the first timer of a list, and carry over to the next one if it was at its end. -/
def carry : List (Fin 4) → Timers → InterruptController → Timers × InterruptController
  | [], t, c => (t, c)
  | j :: rest, t, c =>
    if t.counters.get j = 0xFFFF then carry rest (t.restart j) (t.announce c j)
    else (t.increment j, c)

/-- An overflow is carried through the cascade. -/
theorem overflowFrom_eq_carry (after : Nat) (h : after < 4) (t : Timers)
    (c : InterruptController) {i : Fin 4} (hi : i.val + after = 3) :
    overflowFrom after h t c = carry (t.cascade i) (t.restart i) (t.announce c i) := by
  induction after generalizing t c i with
  | zero =>
    obtain rfl : i = 3 := Fin.ext hi
    rfl
  | succ after ih =>
    let next : Fin 4 := ⟨3 - after, by omega⟩
    have hplace : (⟨3 - (after + 1), by omega⟩ : Fin 4) = i := Fin.ext (by simp only; omega)
    have hnext : next.val = i.val + 1 := by simp only [next]; omega
    have hlater : after < 4 := by omega
    have hstep : overflowFrom (after + 1) h t c =
        if t.countsOverflows next = true then
          if (t.restart i).counters.get next = 0xFFFF then
            overflowFrom after hlater (t.restart i) (t.announce c i)
          else ((t.restart i).increment next, t.announce c i)
        else (t.restart i, t.announce c i) := by
      rw [← hplace]
      rfl
    rw [hstep, cascade_succ hnext]
    by_cases hup : t.countsOverflows next = true
    · rw [if_pos hup, if_pos hup, carry]
      exact ite_congr rfl (fun _ => ih hlater _ _ (by omega)) fun _ => rfl
    · rw [if_neg hup, if_neg hup, carry]

theorem overflow_eq_carry (t : Timers) (c : InterruptController) (i : Fin 4) :
    t.overflow c i = carry (t.cascade i) (t.restart i) (t.announce c i) :=
  overflowFrom_eq_carry (3 - i.val) (by omega) t c (by omega)

/-! ### One timer -/

@[simp] theorem reload_restart (t : Timers) (i : Fin 4) : (t.restart i).reload = t.reload := rfl

@[simp] theorem control_restart (t : Timers) (i : Fin 4) : (t.restart i).control = t.control := rfl

theorem counter_restart_self (t : Timers) (i : Fin 4) :
    (t.restart i).counters.get i = t.reload.get i := get_set_self _ _ _

theorem counter_restart_other (t : Timers) (h : j ≠ i) :
    (t.restart i).counters.get j = t.counters.get j := get_set_ne _ h _

theorem counter_increment_other (t : Timers) (h : j ≠ i) :
    (t.increment i).counters.get j = t.counters.get j := get_set_ne _ h _

/-- Short of its end a counter moves on without wrapping. -/
theorem toNat_increment (h : t.counters.get i ≠ 0xFFFF) :
    ((t.increment i).counters.get i).toNat = (t.counters.get i).toNat + 1 := by
  have hend : (t.counters.get i).toNat ≠ 0xFFFF := fun heq => h (UInt16.toNat_inj.mp heq)
  have hlt := (t.counters.get i).toNat_lt
  have hone : (1 : UInt16).toNat = 1 := rfl
  show ((t.counters.set i (t.counters.get i + 1)).get i).toNat = _
  rw [get_set_self, UInt16.toNat_add, hone]
  omega

theorem inRange_restart {list : List (Fin 4)} (h : t.InRange list) (i : Fin 4) :
    (t.restart i).InRange list := by
  intro j hj
  by_cases hi : j = i
  · rw [hi, counter_restart_self]
    exact UInt16.le_refl _
  · rw [counter_restart_other _ hi]
    exact h j hj

theorem inRange_increment {list : List (Fin 4)} (h : t.InRange list)
    (hend : t.counters.get i ≠ 0xFFFF) : (t.increment i).InRange list := by
  intro j hj
  by_cases hi : j = i
  · have hlow := h j hj
    subst hi
    rw [UInt16.le_iff_toNat_le] at hlow ⊢
    rw [toNat_increment hend]
    exact hlow.trans (Nat.le_succ _)
  · rw [counter_increment_other _ hi]
    exact h j hj

/-! ### All timers of a list -/

/-- A carry changes nothing but the counters of its timers. -/
theorem carry_frame (list : List (Fin 4)) (t : Timers) (c : InterruptController) :
    (carry list t c).1.reload = t.reload ∧ (carry list t c).1.control = t.control ∧
      (carry list t c).1.startedAt = t.startedAt ∧
      ∀ j, j ∉ list → (carry list t c).1.counters.get j = t.counters.get j := by
  induction list generalizing t c with
  | nil => exact ⟨rfl, rfl, rfl, fun j _ => rfl⟩
  | cons k rest ih =>
    unfold carry
    split
    · obtain ⟨hreload, hcontrol, hstarted, hcounters⟩ := ih (t.restart k) (t.announce c k)
      refine ⟨hreload, hcontrol, hstarted, ?_⟩
      intro j hj
      rw [List.mem_cons, not_or] at hj
      exact (hcounters j hj.2).trans (t.counter_restart_other hj.1)
    · refine ⟨rfl, rfl, rfl, ?_⟩
      intro j hj
      rw [List.mem_cons, not_or] at hj
      exact t.counter_increment_other hj.1

/-- No counter falls below its reload value. -/
theorem inRange_carry {list digits : List (Fin 4)} (h : t.InRange digits) :
    (carry list t c).1.InRange digits := by
  induction list generalizing t c with
  | nil => exact h
  | cons k rest ih =>
    unfold carry
    split
    · exact ih (inRange_restart h k)
    · next hend => exact inRange_increment h hend

/-- **A carry adds one.** The timers may be followed by others, which then count what is carried out
of them. -/
theorem number_carry (list later : List (Fin 4)) (hdistinct : (list ++ later).Nodup)
    (h : t.InRange list) :
    (carry (list ++ later) t c).1.number list = (t.number list + 1) % t.modulus list := by
  induction list generalizing t c with
  | nil =>
    show 0 = (0 + 1) % 1
    rfl
  | cons j rest ih =>
    rw [List.cons_append] at hdistinct ⊢
    obtain ⟨hj, hrest⟩ := List.nodup_cons.mp hdistinct
    have hnot : ∀ k ∈ rest, k ≠ j := by
      rintro k hk rfl
      exact hj (List.mem_append_left _ hk)
    have hlow := UInt16.le_iff_toNat_le.mp (h j (by simp))
    have hmodulus : t.modulus (j :: rest) = t.radix j * t.modulus rest := by simp [modulus]
    unfold carry
    split
    · next hend =>
      -- The counter starts again, and the rest of the number counts the overflow.
      obtain ⟨hreload, -, -, hcounters⟩ :=
        carry_frame (rest ++ later) (t.restart j) (t.announce c j)
      have hrange : (t.restart j).InRange rest := inRange_restart (fun k hk => h k (by simp [hk])) j
      have hzero : (carry (rest ++ later) (t.restart j) (t.announce c j)).1.digit j = 0 := by
        unfold digit
        rw [hcounters j hj, hreload, counter_restart_self, reload_restart, Nat.sub_self]
      have hradix : (carry (rest ++ later) (t.restart j) (t.announce c j)).1.radix j =
          t.radix j := by
        unfold radix
        rw [hreload, reload_restart]
      have hsame : (t.restart j).number rest = t.number rest :=
        number_congr (fun k _ => rfl) fun k hk => t.counter_restart_other (hnot k hk)
      have hlast : t.digit j + 1 = t.radix j := by
        have hcounter : (t.counters.get j).toNat = 0xFFFF := congrArg UInt16.toNat hend
        unfold digit radix
        omega
      calc _ = 0 + t.radix j * ((t.number rest + 1) % t.modulus rest) := by
            rw [number, hzero, hradix, ih hrest hrange, hsame]
            rfl
        _ = t.radix j * (t.number rest + 1) % t.modulus (j :: rest) := by
            rw [hmodulus, Nat.mul_mod_mul_left, Nat.zero_add]
        _ = (t.digit j + t.radix j * t.number rest + 1) % t.modulus (j :: rest) := by
            rw [Nat.mul_succ, ← hlast]
            ring_nf
    · next hend =>
      have hnext : (t.increment j).digit j = t.digit j + 1 := by
        unfold digit
        rw [toNat_increment hend]
        show (t.counters.get j).toNat + 1 - (t.reload.get j).toNat = _
        omega
      have hsame : (t.increment j).number rest = t.number rest :=
        number_congr (fun k _ => rfl) fun k hk => t.counter_increment_other (hnot k hk)
      have hnumber : (t.increment j).number (j :: rest) = t.number (j :: rest) + 1 := by
        show (t.increment j).digit j + t.radix j * (t.increment j).number rest = _
        rw [hnext, hsame, number]
        ring
      have hbelow : (t.increment j).number (j :: rest) < t.modulus (j :: rest) :=
        number_lt (inRange_increment h hend)
      rw [hnumber] at hbelow ⊢
      exact (Nat.mod_eq_of_lt hbelow).symm

/-! ### Interrupts -/

/-- The timers of a list that an overflow before them makes wrap: the first ones, as long as they
are at their end. -/
def wrapping (t : Timers) (list : List (Fin 4)) : List (Fin 4) :=
  list.takeWhile fun j => t.counters.get j == 0xFFFF

theorem wrapping_restart {list : List (Fin 4)} (h : i ∉ list) :
    (t.restart i).wrapping list = t.wrapping list := by
  induction list with
  | nil => rfl
  | cons j rest ih =>
    rw [List.mem_cons, not_or] at h
    unfold wrapping at ih ⊢
    rw [List.takeWhile_cons, List.takeWhile_cons, ih h.2, counter_restart_other _ (Ne.symm h.1)]

/-- The interrupts are those of the timers that wrap. -/
theorem interrupts_carry {list : List (Fin 4)} (hdistinct : list.Nodup) (t : Timers)
    (c : InterruptController) : (carry list t c).2 = (t.wrapping list).foldl t.announce c := by
  induction list generalizing t c with
  | nil => rfl
  | cons j rest ih =>
    obtain ⟨hj, hrest⟩ := List.nodup_cons.mp hdistinct
    unfold carry wrapping
    rw [List.takeWhile_cons]
    by_cases hend : t.counters.get j = 0xFFFF
    · rw [if_pos hend, if_pos (beq_iff_eq.mpr hend), List.foldl_cons, ih hrest,
        wrapping_restart hj]
      rfl
    · rw [if_neg hend, if_neg (by simpa using hend)]
      rfl

theorem raised_announce (t : Timers) (c : InterruptController) (j : Fin 4) {b : Nat}
    (hb : b < 32) :
    (t.announce c j).raised.toNat.testBit b =
      (c.raised.toNat.testBit b || decide ((t.control.get j).raises = true ∧ b = 3 + j.val)) := by
  have hplace : 3 + j.val < 32 := by omega
  unfold announce
  by_cases hraises : (t.control.get j).raises = true
  · rw [if_pos hraises]
    show (setBit c.raised (Interrupt.timer j).bit true).toNat.testBit b = _
    rw [Interrupt.bit_timer, ← isBit_eq_testBit _ hb, isBit_setBit _ _ hplace hb,
      isBit_eq_testBit _ hb]
    by_cases hbit : b = 3 + j.val <;> simp [hraises, hbit]
  · simp [hraises]

/-- Interrupts are raised and nothing else is done to the registers. -/
theorem announce_frame (t : Timers) (list : List (Fin 4)) (c : InterruptController) :
    (list.foldl t.announce c).master = c.master ∧
      (list.foldl t.announce c).enabled = c.enabled := by
  induction list generalizing c with
  | nil => exact ⟨rfl, rfl⟩
  | cons j rest ih =>
    obtain ⟨hmaster, henabled⟩ := ih (t.announce c j)
    have hsame : (t.announce c j).master = c.master ∧ (t.announce c j).enabled = c.enabled := by
      unfold announce
      split <;> exact ⟨rfl, rfl⟩
    exact ⟨hmaster.trans hsame.1, henabled.trans hsame.2⟩

theorem raised_announced (t : Timers) (list : List (Fin 4)) (c : InterruptController) {b : Nat}
    (hb : b < 32) :
    (list.foldl t.announce c).raised.toNat.testBit b =
      (c.raised.toNat.testBit b ||
        decide (∃ j ∈ list, (t.control.get j).raises = true ∧ b = 3 + j.val)) := by
  induction list generalizing c with
  | nil => simp
  | cons j rest ih =>
    rw [List.foldl_cons, ih, raised_announce _ _ _ hb, Bool.or_assoc, ← Bool.decide_or]
    simp only [List.mem_cons, exists_eq_or_imp]

/-! ## Overflows -/

/-- What an overflow of a timer does to the timers and the interrupt registers of its processor. -/
structure Cascade (i : Fin 4) (t : Timers) (c : InterruptController)
    (after : Timers × InterruptController) : Prop where
  counter : after.1.counters.get i = t.reload.get i
  /-- The number that the following timers show is one more, modulo the product of the radices. -/
  number : after.1.number (t.cascade i) = (t.number (t.cascade i) + 1) % t.modulus (t.cascade i)
  inRange : after.1.InRange (t.cascade i)
  others : ∀ j ≠ i, j ∉ t.cascade i → after.1.counters.get j = t.counters.get j
  reload : after.1.reload = t.reload
  control : after.1.control = t.control
  startedAt : ∀ j ≠ i, after.1.startedAt.get j = t.startedAt.get j
  /-- The interrupts of the timer and of those that have wrapped are raised, if they are wanted. -/
  raised : ∀ b < 32, after.2.raised.toNat.testBit b =
    (c.raised.toNat.testBit b ||
      decide (∃ j ∈ i :: t.wrapping (t.cascade i),
        (t.control.get j).raises = true ∧ b = 3 + j.val))
  master : after.2.master = c.master
  enabled : after.2.enabled = c.enabled

/-- An overflow adds one to the number of any first timers of the cascade. -/
theorem number_overflow {list : List (Fin 4)} (hfirst : list <+: t.cascade i)
    (h : t.InRange list) :
    (t.overflow c i).1.number list = (t.number list + 1) % t.modulus list := by
  obtain ⟨later, hlist⟩ := hfirst
  have hdistinct := t.nodup_cascade i
  rw [← hlist] at hdistinct
  have hsame : (t.restart i).number list = t.number list := by
    refine number_congr (fun k _ => rfl) fun k hk => ?_
    apply t.counter_restart_other
    rintro rfl
    exact not_mem_cascade_self (hlist ▸ List.mem_append_left later hk)
  rw [overflow_eq_carry, ← hlist, number_carry list later hdistinct (inRange_restart h i), hsame]
  rfl

theorem inRange_overflow {list : List (Fin 4)} (h : t.InRange list) :
    (t.overflow c i).1.InRange list := by
  rw [overflow_eq_carry]
  exact inRange_carry (inRange_restart h i)

theorem cascade_overflow (c : InterruptController) (h : t.InRange (t.cascade i)) :
    Cascade i t c (t.overflow c i) := by
  obtain ⟨hreload, hcontrol, hstarted, hcounters⟩ :=
    carry_frame (t.cascade i) (t.restart i) (t.announce c i)
  have hinterrupts : (t.overflow c i).2 =
      (i :: t.wrapping (t.cascade i)).foldl t.announce c := by
    rw [overflow_eq_carry, interrupts_carry (t.nodup_cascade i),
      wrapping_restart not_mem_cascade_self]
    rfl
  rw [← overflow_eq_carry] at hreload hcontrol hstarted hcounters
  obtain ⟨hmaster, henabled⟩ := t.announce_frame (i :: t.wrapping (t.cascade i)) c
  refine
    { counter := (hcounters i not_mem_cascade_self).trans (t.counter_restart_self i)
      number := number_overflow List.prefix_rfl h
      inRange := inRange_overflow h
      others := ?_
      reload := hreload
      control := hcontrol
      startedAt := fun j _ => by rw [hstarted]; rfl
      raised := ?_
      master := ?_
      enabled := ?_ }
  · intro j hne hj
    exact (hcounters j hj).trans (t.counter_restart_other hne)
  · intro b hb
    rw [hinterrupts]
    exact t.raised_announced _ c hb
  · rw [hinterrupts]
    exact hmaster
  · rw [hinterrupts]
    exact henabled

/-- Any number of overflows. -/
theorem number_overflows (c : InterruptController) (h : t.InRange (t.cascade i)) (n : ℕ) :
    let after := (fun x : Timers × InterruptController => x.1.overflow x.2 i)^[n] (t, c)
    after.1.number (t.cascade i) = (t.number (t.cascade i) + n) % t.modulus (t.cascade i) := by
  let step := fun x : Timers × InterruptController => x.1.overflow x.2 i
  have hrun : (step^[n] (t, c)).1.reload = t.reload ∧ (step^[n] (t, c)).1.control = t.control ∧
      (step^[n] (t, c)).1.InRange (t.cascade i) ∧
      (step^[n] (t, c)).1.number (t.cascade i) =
        (t.number (t.cascade i) + n) % t.modulus (t.cascade i) := by
    induction n with
    | zero => exact ⟨rfl, rfl, h, (Nat.mod_eq_of_lt (number_lt h)).symm⟩
    | succ n ih =>
      obtain ⟨hreload, hcontrol, hrange, hnumber⟩ := ih
      rw [Function.iterate_succ_apply']
      let x := step^[n] (t, c)
      have hcascade : x.1.cascade i = t.cascade i := by
        unfold cascade countsOverflows
        rw [hcontrol]
      have hmodulus : x.1.modulus (t.cascade i) = t.modulus (t.cascade i) :=
        modulus_congr fun j _ => by rw [hreload]
      have hlast : Cascade i x.1 x.2 (step x) := cascade_overflow x.2 (by rwa [hcascade])
      have hone := hlast.number
      rw [hcascade, hmodulus, hnumber, Nat.mod_add_mod, Nat.add_assoc] at hone
      refine ⟨hlast.reload.trans hreload, hlast.control.trans hcontrol, ?_, hone⟩
      have hrest := hlast.inRange
      rwa [hcascade] at hrest
  exact hrun.2.2.2

/-- Handling the event of an overflow also sets the time from which the timer counts. -/
theorem cascade_onOverflow (c : InterruptController) (h : t.InRange (t.cascade i)) (now : UInt64)
    (lateBy : Int64) :
    Cascade i t c ((t.onOverflow c i now lateBy).1, (t.onOverflow c i now lateBy).2.1) := by
  have hoverflow := cascade_overflow c h
  have hsame : (t.onOverflow c i now lateBy).1.number (t.cascade i) =
      (t.overflow c i).1.number (t.cascade i) := number_congr (fun _ _ => rfl) fun _ _ => rfl
  refine { hoverflow with number := hsame.trans hoverflow.number, startedAt := ?_ }
  · intro j hj
    exact (get_set_ne _ hj _).trans (hoverflow.startedAt j hj)

/-- A timer that is not in the cascade is not disturbed. -/
theorem sameAt_onOverflow_of_not_mem (c : InterruptController) (h : j ∉ i :: t.cascade i)
    (now : UInt64) (lateBy : Int64) : SameAt j t (t.onOverflow c i now lateBy).1 := by
  rw [List.mem_cons, not_or] at h
  obtain ⟨hreload, hcontrol, hstarted, hcounters⟩ :=
    carry_frame (t.cascade i) (t.restart i) (t.announce c i)
  rw [← overflow_eq_carry] at hreload hcontrol hstarted hcounters
  refine ⟨?_, ?_, ?_, ?_⟩
  · show (t.overflow c i).1.reload.get j = _
    rw [hreload, reload_restart]
  · show (t.overflow c i).1.control.get j = _
    rw [hcontrol, control_restart]
  · exact (hcounters j h.2).trans (t.counter_restart_other h.1)
  · exact (get_set_ne _ h.1 _).trans (congrArg (·.get j) hstarted)

end Timers

/-! ## Events -/

namespace System

variable {s s' : System} {p : Processor} {i : Fin 4} {event : Fired Event}

/-- What handling the overflow of a timer that counts time does. -/
theorem dispatch_counts (hkind : event.kind = overflowEvent p i)
    (hcounts : (s.timers.get p).countsTime i = true) (log : Log) :
    let outcome :=
      (s.timers.get p).onOverflow (s.interrupts.get p) i s.queue.now event.lateBy
    (s.dispatch event log).1 =
      { s with
        timers := s.timers.set p outcome.1
        interrupts := s.interrupts.set p outcome.2.1
        queue := s.queue.schedule (overflowEvent p i) outcome.2.2 } := by
  rcases s.dispatch_cases event log with ⟨-, -, hnone⟩ | ⟨q, j, hother, -, hsystem⟩
  · rw [hnone p i hkind] at hcounts
    cases hcounts
  · obtain ⟨rfl, rfl⟩ := overflowEvent_inj (hkind.symm.trans hother)
    rw [hsystem, onTimerOverflow_of_countsTime _ _ _ _ _ hcounts]

/-- An overflow that is handled changes its processor's timers and interrupts as its cascade says,
and no others. -/
theorem dispatch_cascade (hkind : event.kind = overflowEvent p i)
    (hcounts : (s.timers.get p).countsTime i = true)
    (hrange : (s.timers.get p).InRange ((s.timers.get p).cascade i)) (log : Log) :
    let u := (s.dispatch event log).1
    Timers.Cascade i (s.timers.get p) (s.interrupts.get p) (u.timers.get p, u.interrupts.get p) ∧
      u = { s with
        timers := s.timers.set p (u.timers.get p)
        interrupts := s.interrupts.set p (u.interrupts.get p)
        queue := u.queue } := by
  intro u
  have hu : u = _ := dispatch_counts hkind hcounts log
  have htimers : u.timers.get p =
      ((s.timers.get p).onOverflow (s.interrupts.get p) i s.queue.now event.lateBy).1 := by
    rw [hu]
    exact PerProcessor.get_set_self _ _ _
  have hinterrupts : u.interrupts.get p =
      ((s.timers.get p).onOverflow (s.interrupts.get p) i s.queue.now event.lateBy).2.1 := by
    rw [hu]
    exact PerProcessor.get_set_self _ _ _
  constructor
  · rw [htimers, hinterrupts]
    exact Timers.cascade_onOverflow _ hrange _ _
  · rw [htimers, hinterrupts, hu]

/-- The overflow of a timer moves no counter of another cascade. -/
theorem sameAt_dispatch_cascade {t : Timers} (hi : t.countsTime i = true)
    (hcontrol : ∀ j ∈ i :: t.cascade i, (s.timers.get p).control.get j = t.control.get j)
    (hkind : event.kind ≠ overflowEvent p i) (log : Log) :
    ∀ k ∈ i :: t.cascade i, Timers.SameAt k (s.timers.get p)
      ((s.dispatch event log).1.timers.get p) := by
  intro k hk
  have hlonger : t.cascade i <+: (s.timers.get p).cascade i :=
    Timers.cascade_prefix fun j hj => hcontrol j (by simp [hj])
  have hmem : k ∈ i :: (s.timers.get p).cascade i := by
    rcases List.mem_cons.mp hk with rfl | hk
    · simp
    · exact List.mem_cons_of_mem _ (hlonger.subset hk)
  have hcounts : (s.timers.get p).countsTime i = true := by
    unfold Timers.countsTime at hi ⊢
    rw [Timers.getElem_eq_get] at hi ⊢
    rwa [hcontrol i (by simp)]
  rcases s.dispatch_cases event log with ⟨-, htimers, -⟩ | ⟨q, j, hother, hon, hsystem⟩
  · rw [htimers]
    exact .refl _ _
  · rw [hsystem, onTimerOverflow_of_countsTime _ _ _ _ _ hon]
    apply FreeRun.sameAt_set
    rintro rfl
    have hne : j ≠ i := by
      rintro rfl
      exact hkind hother
    apply Timers.sameAt_onOverflow_of_not_mem
    exact fun hj => Timers.disjoint_cascade hcounts hon hne hj hmem

end System

/-! ## Runs -/

/-- What holds of a system once the overflows in a record were counted, from timers `t` on: the
timers of the cascade are set as they were, and their number has moved on by as many. -/
structure Counted (p : Processor) (i : Fin 4) (t : Timers) (s : System) (record : List Happening) :
    Prop where
  control : ∀ j ∈ i :: t.cascade i, (s.timers.get p).control.get j = t.control.get j
  reload : ∀ j ∈ i :: t.cascade i, (s.timers.get p).reload.get j = t.reload.get j
  inRange : (s.timers.get p).InRange (t.cascade i)
  number : (s.timers.get p).number (t.cascade i) =
    (t.number (t.cascade i) + (overflows p i 0 record).length) % t.modulus (t.cascade i)

namespace Counted

variable {p : Processor} {i : Fin 4} {t : Timers} {s s' : System} {u u' : List Happening}

theorem start (h : (s.timers.get p).InRange ((s.timers.get p).cascade i)) :
    Counted p i (s.timers.get p) s [] where
  control _ _ := rfl
  reload _ _ := rfl
  inRange := h
  number := (Nat.mod_eq_of_lt (Timers.number_lt h)).symm

theorem countsTime (h : Counted p i t s u) (hi : t.countsTime i = true) :
    (s.timers.get p).countsTime i = true := by
  unfold Timers.countsTime at hi ⊢
  rw [Timers.getElem_eq_get] at hi ⊢
  rwa [h.control i (by simp)]

/-- What leaves the timers of the cascade alone and is no overflow changes nothing. -/
theorem frame (h : Counted p i t s u)
    (hsame : ∀ j ∈ i :: t.cascade i,
      (s'.timers.get p).control.get j = (s.timers.get p).control.get j ∧
        (s'.timers.get p).reload.get j = (s.timers.get p).reload.get j ∧
        (s'.timers.get p).counters.get j = (s.timers.get p).counters.get j)
    (hrecord : (overflows p i 0 u').length = (overflows p i 0 u).length) :
    Counted p i t s' u' where
  control j hj := (hsame j hj).1.trans (h.control j hj)
  reload j hj := (hsame j hj).2.1.trans (h.reload j hj)
  inRange j hj := by
    obtain ⟨-, hreload, hcounter⟩ := hsame j (by simp [hj])
    rw [hreload, hcounter]
    exact h.inRange j hj
  number := by
    rw [hrecord, ← h.number]
    exact Timers.number_congr (fun j hj => (hsame j (by simp [hj])).2.1)
      fun j hj => (hsame j (by simp [hj])).2.2

theorem congr (h : Counted p i t s u) (htimers : s'.timers = s.timers) : Counted p i t s' u :=
  h.frame (fun j _ => by rw [htimers]; exact ⟨rfl, rfl, rfl⟩) rfl

/-- An overflow of the timer is counted. -/
theorem fired (h : Counted p i t s u) (hi : t.countsTime i = true) (event : Fired Event)
    (log : Log) :
    Counted p i t (s.dispatch event log).1 (u ++ [.fired event s.queue.now]) := by
  have hlength : (overflows p i 0 (u ++ [.fired event s.queue.now])).length =
      (overflows p i 0 u).length + if event.kind = System.overflowEvent p i then 1 else 0 := by
    rw [Happening.overflows_append, List.length_append]
    by_cases hkind : event.kind = System.overflowEvent p i <;> simp [overflows, hkind]
  by_cases hkind : event.kind = System.overflowEvent p i
  · rw [if_pos hkind] at hlength
    let before := s.timers.get p
    let outcome := before.onOverflow (s.interrupts.get p) i s.queue.now event.lateBy
    have htimers : (s.dispatch event log).1.timers.get p = outcome.1 := by
      rw [System.dispatch_counts hkind (h.countsTime hi) log]
      exact PerProcessor.get_set_self _ _ _
    obtain ⟨hreload, hcontrol, -, -⟩ :=
      Timers.overflowFrom_frame (3 - i.val) (by omega) before (s.interrupts.get p)
    -- The cascade may have become longer since, but its first timers are those that are counted.
    have hprefix : t.cascade i <+: before.cascade i :=
      Timers.cascade_prefix fun j hj => h.control j (by simp [hj])
    have hmodulus : before.modulus (t.cascade i) = t.modulus (t.cascade i) :=
      Timers.modulus_congr fun j hj => h.reload j (by simp [hj])
    refine ⟨?_, ?_, ?_, ?_⟩
    · intro j hj
      rw [htimers]
      exact (congrArg (·.get j) hcontrol).trans (h.control j hj)
    · intro j hj
      rw [htimers]
      exact (congrArg (·.get j) hreload).trans (h.reload j hj)
    · rw [htimers]
      exact Timers.inRange_overflow (c := s.interrupts.get p) (i := i) h.inRange
    · calc ((s.dispatch event log).1.timers.get p).number (t.cascade i)
          = (before.overflow (s.interrupts.get p) i).1.number (t.cascade i) := by
            rw [htimers]
            exact Timers.number_congr (fun _ _ => rfl) fun _ _ => rfl
        _ = (before.number (t.cascade i) + 1) % before.modulus (t.cascade i) :=
            Timers.number_overflow hprefix h.inRange
        _ = _ := by
            rw [hmodulus, h.number, Nat.mod_add_mod, hlength, Nat.add_assoc]
  · rw [if_neg hkind] at hlength
    refine h.frame (fun j hj => ?_) hlength
    have hsame := System.sameAt_dispatch_cascade hi h.control hkind log j hj
    exact ⟨hsame.control, hsame.reload, hsame.counter⟩

end Counted

/-- All that happens to the timers of a cascade, other than writes to their registers, is counted. -/
theorem counted_chronicle {p : Processor} {i : Fin 4} {t : Timers} (hi : t.countsTime i = true) :
    Chronicle fun s u => (∀ h ∈ u, ∀ j ∈ i :: t.cascade i, ¬ h.touches p j) →
      Counted p i t s u where
  congr h htimers _ _ _ := fun halone => (h halone).congr htimers
  wrote {s u} _ _ h q lanes log r := by
    intro halone
    refine (h fun x hx => halone x (by simp [hx])).frame (fun j hj => ?_) ?_
    · have hsame := System.sameAt_writeIo s q lanes log r
        (halone (.wrote q r s (s.writeIo q lanes log r).1) (by simp) j hj)
      exact ⟨hsame.control, hsame.reload, hsame.counter⟩
    · rw [Happening.overflows_append, List.length_append]
      rfl
  paused _ h _ := fun halone => (h halone).congr rfl
  fired {s u target event queue} _ _ _ _ h log := by
    intro halone
    have hpopped : Counted p i t { s with queue } u :=
      (h fun x hx => halone x (by simp [hx])).congr rfl
    exact hpopped.fired hi event log
  passed _ _ _ _ h := fun halone => (h halone).congr rfl
  lowered {s u} _ _ h := by
    intro halone
    refine (h fun x hx => halone x (by simp [hx])).frame (fun j _ => ?_) ?_
    · by_cases hlow : s.system.queue.now < EventQueue.rebaseAt
      · rw [Session.rebase_of_lt hlow]
        exact ⟨rfl, rfl, rfl⟩
      · rw [Session.system_rebase_of_le hlow]
        dsimp only
        rw [FreeRun.get_map]
        exact ⟨rfl, rfl, rfl⟩
    · rw [Happening.overflows_append, List.length_append]
      rfl

/-- **Timers that count overflows form one number.** Let the timers after a timer, as far as they are
on and count up, have counters between their reload values and the end of their range. An overflow
of the timer reloads its counter and adds one to the number that the others show, modulo the product
of their radices; it raises the interrupts of the timer and of those that wrap, as far as they are
wanted, and changes no other counter and no setting; and any number of overflows add their number.
Handling the event of an overflow does this to the timers and the interrupts of its processor, and
reschedules the event. So in any run of a session in which the timer counts time and none of these
timers' registers are written, their number moves on by as many as there are overflows handled. -/
theorem Session.cascades_exact (p : Processor) (i : Fin 4) (t : Timers)
    (hrange : t.InRange (t.cascade i)) :
    (∀ c, Timers.Cascade i t c (t.overflow c i)) ∧
      (∀ c n, let after := (fun x : Timers × InterruptController => x.1.overflow x.2 i)^[n] (t, c)
        after.1.number (t.cascade i) = (t.number (t.cascade i) + n) % t.modulus (t.cascade i)) ∧
      (∀ (s : System) (event : Fired Event) (log : Log), s.timers.get p = t →
        t.countsTime i = true → event.kind = System.overflowEvent p i →
        let u := (s.dispatch event log).1
        Timers.Cascade i t (s.interrupts.get p) (u.timers.get p, u.interrupts.get p) ∧
          u = { s with
            timers := s.timers.set p (u.timers.get p)
            interrupts := s.interrupts.set p (u.interrupts.get p)
            queue := u.queue }) ∧
      ∀ {s s' : Session} {u : List Happening}, s.Reachable → s.system.timers.get p = t →
        t.countsTime i = true → s.Run u s' →
        (∀ h ∈ u, ∀ j ∈ i :: t.cascade i, ¬ h.touches p j) →
        (s'.system.timers.get p).InRange (t.cascade i) ∧
          (s'.system.timers.get p).number (t.cascade i) =
            (t.number (t.cascade i) + (overflows p i 0 u).length) % t.modulus (t.cascade i) := by
  refine ⟨fun c => Timers.cascade_overflow c hrange, fun c n => Timers.number_overflows c hrange n,
    ?_, ?_⟩
  · rintro s event log rfl hcounts hkind
    exact System.dispatch_cascade hkind hcounts hrange log
  · rintro s s' u reachable rfl hcounts run halone
    have hstart := Counted.start hrange
    have hend := ((counted_chronicle hcounts).run reachable (fun _ => hstart) run).1 halone
    exact ⟨hend.inRange, hend.number⟩

namespace Session

/-- The main processor writes a half. -/
def writeHalf (s : Session) (address value : UInt32) : Session :=
  (s.write .arm9 .half address value {}).1

/-- A sleeping console with a timer that runs over every 32 cycles. The next one counts that and has
a single value, and one with two values counts the overflows of that. -/
def cascading : Session :=
  (((((asleep.writeHalf 0x4000104 0xFFFF).writeHalf 0x4000106 0x84).writeHalf
    0x4000108 0xFFFE).writeHalf 0x400010A 0xC4).writeHalf 0x4000100 0xFFF0).writeHalf 0x4000102 0xC0

theorem reachable_cascading : cascading.Reachable := by
  have hwrite : ∀ (s : Session) (address value : UInt32), s.Reachable →
      (s.writeHalf address value).now.toNat < 2 ^ 62 → (s.writeHalf address value).Reachable :=
    fun s address value h hrange => h.step (.write s .arm9 .half address value {}) hrange
  have hasleep : asleep.Reachable :=
    ((Reachable.new {}).step (.replaceCpu _ .arm7 { isHalted := true }) (by decide)).step
      (.replaceCpu _ .arm9 { isHalted := true }) (by decide)
  unfold cascading
  refine hwrite _ _ _ (hwrite _ _ _ (hwrite _ _ _ (hwrite _ _ _ (hwrite _ _ _ (hwrite _ _ _
    hasleep ?_) ?_) ?_) ?_) ?_) ?_
  all_goals decide +kernel

/-- Its first overflow passes through the counter with one value. -/
theorem cascades_exact_once :
    let t := cascading.system.timers.get .arm9
    let later := cascading.advanced.advanced
    t.InRange [1, 2] ∧ t.modulus [1, 2] = 2 ∧
      ((cascading.system.dispatch ⟨System.overflowEvent .arm9 0, 0⟩ {}).1.timers.get .arm9).number
        [1, 2] = 1 ∧
      later.now = 32 ∧ (later.system.timers.get .arm9).number [1, 2] = 1 := by
  intro t later
  have hcascade : t.cascade 0 = [1, 2] := by decide +kernel
  have hcounts : t.countsTime 0 = true := by decide +kernel
  have hrange : t.InRange [1, 2] := by
    intro j hj
    simp only [List.mem_cons, List.not_mem_nil, or_false] at hj
    rcases hj with rfl | rfl <;> decide +kernel
  have hmodulus : t.modulus [1, 2] = 2 := by decide +kernel
  have hnumber : t.number [1, 2] = 0 := by decide +kernel
  let record : List Happening :=
    [.lowered 0, .fired ⟨System.overflowEvent .arm9 0, 0⟩ 32, .lowered 0]
  obtain ⟨log, hfirst⟩ : ∃ log, cascading.advance? {} = some (cascading.advanced, log) := ⟨_, rfl⟩
  obtain ⟨log', hsecond⟩ : ∃ log, cascading.advanced.advance? {} = some (later, log) := ⟨_, rfl⟩
  have hrun : cascading.Run record later :=
    ((Run.refl _).step (.advance hfirst) (by decide +kernel)).step (.advance hsecond)
      (by decide +kernel)
  have halone : ∀ h ∈ record, ∀ j ∈ 0 :: t.cascade 0, ¬ h.touches .arm9 j := by
    simp [record, Happening.touches]
  obtain ⟨-, -, hevent, hruns⟩ := cascades_exact .arm9 0 t (by rwa [hcascade])
  have hone := (hevent cascading.system ⟨System.overflowEvent .arm9 0, 0⟩ {} rfl hcounts
    rfl).1.number
  have htwo := (hruns reachable_cascading rfl hcounts hrun halone).2
  rw [hcascade, hmodulus, hnumber] at hone htwo
  exact ⟨hrange, hmodulus, hone, rfl, htwo⟩

end Session
end Handheld.Console
