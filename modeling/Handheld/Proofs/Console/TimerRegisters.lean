import Mathlib
import Handheld.Console.Timer
import Handheld.Proofs.EventQueue.Coherence

/-!
# The registers of one timer

What each operation on the timers of a processor does to one of them. A timer that counts time is
disturbed by no operation on another one, the overflow of an earlier timer included, which stops
at the first timer that does not count up.
-/

namespace Handheld.Console

namespace Timers

/-! ## Registers by index -/

theorem getElem_eq_get {α : Type} {n : Nat} (v : Vector α n) (i : Fin n) : v[i] = v.get i := rfl

theorem get_set_ne {α : Type} {n : Nat} {i j : Fin n} (v : Vector α n) (h : i ≠ j) (a : α) :
    (v.set j.val a j.isLt).get i = v.get i := by
  have hval : j.val ≠ i.val := fun e => h (Fin.ext e.symm)
  simp only [Vector.get_eq_getElem, Vector.getElem_set_ne _ _ hval]

theorem get_set_self {α : Type} {n : Nat} (v : Vector α n) (i : Fin n) (a : α) :
    (v.set i.val a i.isLt).get i = a := by
  simp only [Vector.get_eq_getElem, Vector.getElem_set_self]

/-- Both states have the same registers for one timer. -/
structure SameAt (i : Fin 4) (t t' : Timers) : Prop where
  reload : t'.reload.get i = t.reload.get i
  control : t'.control.get i = t.control.get i
  counter : t'.counters.get i = t.counters.get i
  startedAt : t'.startedAt.get i = t.startedAt.get i

variable {i j : Fin 4} {t : Timers}

theorem SameAt.refl (i : Fin 4) (t : Timers) : SameAt i t t := ⟨rfl, rfl, rfl, rfl⟩

theorem ne_mk {n : Nat} (hn : n < 4) (h : i.val ≠ n) : i ≠ ⟨n, hn⟩ :=
  fun e => h (congrArg Fin.val e)

/-! ## Writes to another timer -/

theorem sameAt_writeReload (t : Timers) (h : i ≠ j) (lanes : Lanes) :
    SameAt i t (t.writeReload j lanes) := ⟨get_set_ne _ h _, rfl, rfl, rfl⟩

theorem sameAt_writeControl (t : Timers) (h : i ≠ j) (lanes : Lanes) (now : UInt64) :
    SameAt i t (t.writeControl j lanes now).1 := by
  unfold writeControl
  dsimp only
  split
  · exact ⟨rfl, get_set_ne _ h _, get_set_ne _ h _, get_set_ne _ h _⟩
  · exact ⟨rfl, get_set_ne _ h _, get_set_ne _ h _, rfl⟩

/-! ## Overflows -/

/-- A timer that counts time does not count up. -/
theorem not_countsUp_of_countsTime (h : t.countsTime i = true) (hi : i ≠ 0) :
    ((t.control.get i).isEnabled && (t.control.get i).countsUp) = false := by
  unfold countsTime TimerControl.countsTime at h
  rw [getElem_eq_get] at h
  have hzero : (i == 0) = false := by simpa using hi
  rw [hzero, Bool.false_or, Bool.and_eq_true] at h
  obtain ⟨-, hup⟩ := h
  rw [Bool.not_eq_true'] at hup
  rw [hup, Bool.and_false]

/-- An overflow changes nothing but counters, none of which comes before the timer. -/
theorem overflowFrom_frame (after : Nat) (h : after < 4) (t : Timers) (c : InterruptController) :
    (overflowFrom after h t c).1.reload = t.reload ∧
    (overflowFrom after h t c).1.control = t.control ∧
    (overflowFrom after h t c).1.startedAt = t.startedAt ∧
    (∀ i : Fin 4, i.val + after < 3 →
      (overflowFrom after h t c).1.counters.get i = t.counters.get i) := by
  induction after generalizing t c with
  | zero =>
    refine ⟨rfl, rfl, rfl, ?_⟩
    intro i hi
    have hne : i ≠ ⟨3, by omega⟩ := ne_mk _ (by omega)
    exact get_set_ne _ hne _
  | succ after ih =>
    have hfirst : ∀ i : Fin 4, i.val + (after + 1) < 3 → i ≠ ⟨3 - (after + 1), by omega⟩ :=
      fun i hi => ne_mk _ (by omega)
    have hsecond : ∀ i : Fin 4, i.val + (after + 1) < 3 → i ≠ ⟨3 - after, by omega⟩ :=
      fun i hi => ne_mk _ (by omega)
    unfold overflowFrom
    dsimp only
    split
    · split
      · obtain ⟨hreload, hcontrol, hstarted, hcounters⟩ := ih (by omega) _ _
        refine ⟨hreload, hcontrol, hstarted, ?_⟩
        intro i hi
        exact (hcounters i (by omega)).trans (get_set_ne _ (hfirst i hi) _)
      · refine ⟨rfl, rfl, rfl, ?_⟩
        intro i hi
        exact (get_set_ne _ (hsecond i hi) _).trans (get_set_ne _ (hfirst i hi) _)
    · exact ⟨rfl, rfl, rfl, fun i hi => get_set_ne _ (hfirst i hi) _⟩

/-- The timer that runs over starts again from its reload value. -/
theorem counter_overflowFrom_self (after : Nat) (h : after < 4) (t : Timers)
    (c : InterruptController) (i : Fin 4) (hi : i.val + after = 3) :
    (overflowFrom after h t c).1.counters.get i = t.reload.get i := by
  cases after with
  | zero =>
    have hlast : i = ⟨3, by omega⟩ := Fin.ext hi
    rw [hlast]
    exact get_set_self _ _ _
  | succ after =>
    let first : Fin 4 := ⟨3 - (after + 1), by omega⟩
    have hfirst : i = first := Fin.ext (by simp only [first]; omega)
    have hset : (t.counters.set first (t.reload.get first)).get first = t.reload.get first :=
      get_set_self _ _ _
    have hne : first ≠ ⟨3 - after, by omega⟩ := ne_mk _ (by simp only [first]; omega)
    rw [hfirst]
    unfold overflowFrom
    dsimp only
    split
    · split
      · obtain ⟨-, -, -, hcounters⟩ := overflowFrom_frame after (by omega)
          { t with counters := t.counters.set first (t.reload.get first) } _
        exact (hcounters first (by simp only [first]; omega)).trans hset
      · exact (get_set_ne _ hne _).trans hset
    · exact hset

/-- The overflow of an earlier timer stops before one that counts time. -/
theorem counter_overflowFrom_later (after : Nat) (h : after < 4) (t : Timers)
    (c : InterruptController) (i : Fin 4) (hi : 3 < i.val + after)
    (hcounts : t.countsTime i = true) :
    (overflowFrom after h t c).1.counters.get i = t.counters.get i := by
  induction after generalizing t c with
  | zero => omega
  | succ after ih =>
    have hfirst : i ≠ ⟨3 - (after + 1), by omega⟩ := ne_mk _ (by omega)
    have hzero : i ≠ 0 := fun e => by
      rw [e] at hi
      have hval : (0 : Fin 4).val = 0 := rfl
      omega
    unfold overflowFrom
    dsimp only
    split
    · next hup =>
      have hnext : i ≠ ⟨3 - after, by omega⟩ := by
        rintro e
        have hdown := not_countsUp_of_countsTime hcounts hzero
        rw [e] at hdown
        rw [getElem_eq_get, hdown] at hup
        cases hup
      split
      · have hval : i.val ≠ 3 - after := fun e => hnext (Fin.ext e)
        refine (ih (by omega) _ _ (by omega) ?_).trans (get_set_ne _ hfirst _)
        exact hcounts
      · exact (get_set_ne _ hnext _).trans (get_set_ne _ hfirst _)
    · exact get_set_ne _ hfirst _

/-- The overflow of a timer does not disturb another one that counts time. -/
theorem sameAt_onOverflow (t : Timers) (c : InterruptController) (h : i ≠ j)
    (hcounts : t.countsTime i = true) (now : UInt64) (lateBy : Int64) :
    SameAt i t (t.onOverflow c j now lateBy).1 := by
  obtain ⟨hreload, hcontrol, hstarted, hbefore⟩ := overflowFrom_frame (3 - j.val) (by omega) t c
  have hcounter : (t.overflow c j).1.counters.get i = t.counters.get i := by
    unfold overflow
    have hval : i.val ≠ j.val := fun e => h (Fin.ext e)
    by_cases hlt : i.val < j.val
    · exact hbefore i (by omega)
    · exact counter_overflowFrom_later _ _ t c i (by omega) hcounts
  refine ⟨?_, ?_, hcounter, ?_⟩
  · show (t.overflow c j).1.reload.get i = _
    unfold overflow
    rw [hreload]
  · show (t.overflow c j).1.control.get i = _
    unfold overflow
    rw [hcontrol]
  · show ((t.overflow c j).1.startedAt.set j _).get i = _
    unfold overflow
    rw [get_set_ne _ h, hstarted]

/-- A timer that runs over counts on from its reload value, and from the time of its event. -/
theorem onOverflow_self (t : Timers) (c : InterruptController) (i : Fin 4) (now : UInt64)
    (lateBy : Int64) :
    (t.onOverflow c i now lateBy).1.reload.get i = t.reload.get i ∧
    (t.onOverflow c i now lateBy).1.control.get i = t.control.get i ∧
    (t.onOverflow c i now lateBy).1.counters.get i = t.reload.get i ∧
    (t.onOverflow c i now lateBy).1.startedAt.get i = now - lateBy.toUInt64 ∧
    (t.onOverflow c i now lateBy).2.2 =
      (untilOverflow (t.reload.get i) (t.control.get i)).toUInt64.toInt64 - lateBy := by
  obtain ⟨hreload, hcontrol, -, -⟩ := overflowFrom_frame (3 - i.val) (by omega) t c
  have hcounter := counter_overflowFrom_self (3 - i.val) (by omega) t c i (by omega)
  unfold onOverflow overflow
  dsimp only
  rw [hreload, hcontrol]
  exact ⟨rfl, rfl, hcounter, get_set_self _ _ _, rfl⟩

/-! ## Periods -/

end Timers

namespace TimerControl

theorem prescaler_cases (c : TimerControl) :
    c.prescaler = 2 ∨ c.prescaler = 128 ∨ c.prescaler = 512 ∨ c.prescaler = 2048 := by
  unfold prescaler
  split
  · exact .inl rfl
  · exact .inr (.inl rfl)
  · exact .inr (.inr (.inl rfl))
  · exact .inr (.inr (.inr rfl))

/-- Cycles from one overflow of a timer that counts time to the next. -/
def period (c : TimerControl) (reload : UInt16) : ℕ := c.prescaler.toNat * (0x10000 - reload.toNat)

theorem prescaler_bounds (c : TimerControl) : 2 ≤ c.prescaler.toNat ∧ c.prescaler.toNat ≤ 2048 := by
  rcases c.prescaler_cases with h | h | h | h <;> rw [h] <;> decide

theorem period_bounds (c : TimerControl) (reload : UInt16) :
    2 ≤ c.period reload ∧ c.period reload ≤ 2 ^ 27 := by
  have hreload := reload.toNat_lt
  obtain ⟨hlow, hhigh⟩ := c.prescaler_bounds
  unfold period
  constructor
  · calc 2 ≤ c.prescaler.toNat * 1 := by omega
      _ ≤ c.prescaler.toNat * (0x10000 - reload.toNat) := Nat.mul_le_mul_left _ (by omega)
  · calc c.prescaler.toNat * (0x10000 - reload.toNat) ≤ 2048 * 0x10000 :=
          Nat.mul_le_mul hhigh (by omega)
      _ = 2 ^ 27 := by norm_num

end TimerControl

namespace Timers

theorem toNat_untilOverflow (counter : UInt16) (control : TimerControl) :
    (untilOverflow counter control).toNat = control.period counter := by
  have hcounter := counter.toNat_lt
  have hbound := (control.period_bounds counter).2
  have hsub : (0x10000 - counter.toUInt32).toNat = 0x10000 - counter.toNat := by
    rw [UInt32.toNat_sub_of_le]
    · rfl
    · rw [UInt32.le_iff_toNat_le, UInt16.toNat_toUInt32]
      show counter.toNat ≤ 0x10000
      omega
  unfold untilOverflow
  rw [UInt32.toNat_mul, hsub]
  exact Nat.mod_eq_of_lt (by unfold TimerControl.period at hbound; omega)

/-- The delay of the next overflow is a period. -/
theorem toInt_untilOverflow (counter : UInt16) (control : TimerControl) :
    (untilOverflow counter control).toUInt64.toInt64.toInt = control.period counter := by
  have hbound := (control.period_bounds counter).2
  have hnat : (untilOverflow counter control).toUInt64.toNat = control.period counter := by
    rw [UInt32.toNat_toUInt64, toNat_untilOverflow]
  rw [toInt_toInt64 (by omega), hnat]

/-- The counter of a timer that counts time, less than a period after its start. -/
theorem toNat_read {t : Timers} {i : Fin 4} (hcounts : t.countsTime i = true) {now : UInt64}
    {elapsed : ℕ} (helapsed : (now - t.startedAt.get i).toNat = elapsed)
    (hless : elapsed < (t.control.get i).period (t.counters.get i)) :
    (t.read i now).toNat =
      (t.counters.get i).toNat + elapsed / (t.control.get i).prescaler.toNat := by
  have hcounter := (t.counters.get i).toNat_lt
  obtain ⟨hlow, -⟩ := (t.control.get i).prescaler_bounds
  -- Less than a period has passed, so the counter has not come to its end.
  have hsteps : elapsed / (t.control.get i).prescaler.toNat < 0x10000 - (t.counters.get i).toNat :=
    Nat.div_lt_of_lt_mul hless
  unfold read
  simp only [getElem_eq_get]
  rw [if_pos hcounts, UInt16.toNat_add, UInt64.toNat_toUInt16, UInt64.toNat_div, helapsed,
    UInt32.toNat_toUInt64]
  generalize elapsed / (t.control.get i).prescaler.toNat = steps at hsteps
  omega

/-! ## Starting a timer -/

/-- The control register as a write leaves it. -/
theorem control_writeControl (t : Timers) (i : Fin 4) (lanes : Lanes) (now : UInt64) :
    (t.writeControl i lanes now).1.control.get i = ⟨lanes.merge16 (t.control.get i).raw⟩ := by
  unfold writeControl
  dsimp only
  split <;> exact get_set_self _ _ _

/-- A timer that is switched on and counts time starts at its reload value. -/
theorem writeControl_start {t : Timers} {i : Fin 4} {lanes : Lanes} {now : UInt64}
    (hoff : (t.control.get i).isEnabled = false)
    (hon : (t.writeControl i lanes now).1.countsTime i = true) :
    (t.writeControl i lanes now).1.counters.get i = (t.writeControl i lanes now).1.reload.get i ∧
    (t.writeControl i lanes now).1.startedAt.get i = now ∧
    (t.writeControl i lanes now).2 =
      some (untilOverflow ((t.writeControl i lanes now).1.reload.get i)
        ((t.writeControl i lanes now).1.control.get i)).toUInt64.toInt64 := by
  let control : TimerControl := ⟨lanes.merge16 (t.control.get i).raw⟩
  have hcontrol := t.control_writeControl i lanes now
  have hcounts : control.countsTime i = true := by
    unfold countsTime at hon
    rwa [getElem_eq_get, hcontrol] at hon
  have henabled : control.isEnabled = true := by
    unfold TimerControl.countsTime at hcounts
    exact ((Bool.and_eq_true _ _).mp hcounts).1
  have hwrite : t.writeControl i lanes now =
      ({ t with
          control := t.control.set i control
          counters := t.counters.set i (t.reload.get i)
          startedAt := t.startedAt.set i now },
        some (untilOverflow (t.reload.get i) control).toUInt64.toInt64) := by
    -- Only a timer that was off before starts from its reload value.
    have hstart : (!(t.control.get i).isEnabled && control.isEnabled) = true := by
      rw [hoff, henabled]
      rfl
    unfold writeControl
    dsimp only
    simp only [getElem_eq_get]
    rw [if_pos hstart, if_pos hcounts]
  rw [hwrite]
  refine ⟨get_set_self _ _ _, get_set_self _ _ _, ?_⟩
  dsimp only
  rw [get_set_self]

end Timers
end Handheld.Console
