import Handheld.Proofs.Console.Runs
import Handheld.Proofs.Cpu.Cost

/-!
# What a step does to the clocks

A processor that can run moves its clock by the cycles of its step, of which there are few enough
for the clock to hold. One that sleeps skips to `idleTarget`. Either way the clock does not go
back, and the other processor and its clock are left alone.
-/

namespace Handheld.Console

/-! ## Firmware calls -/

namespace Firmware

/-- Twice a word and a little more. -/
theorem toNat_twice_add_le (x : UInt32) {k : UInt64} (hk : k.toNat ≤ 20) :
    (x.toUInt64 * 2 + k).toNat ≤ 2 ^ 34 := by
  have hx := x.toNat_lt
  rw [UInt64.toNat_add, UInt64.toNat_mul, UInt32.toNat_toUInt64]
  show (x.toNat * 2 % 2 ^ 64 + k.toNat) % 2 ^ 64 ≤ 2 ^ 34
  omega

theorem toNat_loops_le {loops : Int32} (h : ¬ loops < 0) :
    (loops.toInt64.toUInt64 * 4).toNat ≤ 2 ^ 34 := by
  rw [Int32.lt_iff_toInt_lt, Int32.toInt_zero, not_lt] at h
  have hlt := loops.toInt_lt
  have hloops : (loops.toInt64.toUInt64.toNat : ℤ) = loops.toInt := by
    rw [toNat_toUInt64 (by rw [Int32.toInt_toInt64]; exact h), Int32.toInt_toInt64]
  rw [UInt64.toNat_mul]
  show loops.toInt64.toUInt64.toNat * 4 % 2 ^ 64 ≤ 2 ^ 34
  omega

/-- No function of the firmware takes longer than a loop of the largest count. -/
theorem toNat_serve_le (p : Processor) (call : Call) (b : Board System) :
    (serve p call b).1.toNat ≤ 2 ^ 34 := by
  have hwait : ∀ forget flags b, (waitForInterrupt p forget flags b).1.toNat ≤ 2 ^ 34 := by
    intro forget flags b
    have hend : ∀ (empty : Bool) (b' : Board System),
        ((if empty then do
          BoardM.report (.waitingForInterrupts p flags)
          halt
          return 16
        else return 16 : BoardM System UInt64) b').1 = 16 := by
      intro empty b'
      cases empty <;> rfl
    have hcycles : (waitForInterrupt p forget flags b).1 = 16 := hend _ _
    rw [hcycles]
    decide
  cases call with
  | waitByLoop =>
    show (if (b.cpu.reg 0).toInt32 < 0 then (0 : UInt64)
      else (b.cpu.reg 0).toInt32.toInt64.toUInt64 * 4).toNat ≤ 2 ^ 34
    split
    · decide
    · next h => exact toNat_loops_le h
  | intrWait => exact hwait _ _ _
  | vBlankIntrWait => exact hwait _ _ _
  | halt | sleep | soundBias | isDebugger | getSineTable =>
    show fallbackCycles.toNat ≤ 2 ^ 34
    decide
  | div =>
    show (40 : UInt64).toNat ≤ 2 ^ 34
    decide
  | sqrt =>
    show (20 : UInt64).toNat ≤ 2 ^ 34
    decide
  | cpuSet => exact toNat_twice_add_le (unitCount (b.cpu.reg 2) false) (by decide)
  | cpuFastSet => exact toNat_twice_add_le (unitCount (b.cpu.reg 2) true) (by decide)
  | getCrc16 => exact toNat_twice_add_le (b.cpu.reg 2) (by decide)

theorem toNat_serveNumber_le (p : Processor) (number : UInt8) (b : Board System) :
    (serveNumber p number b).1.toNat ≤ 2 ^ 34 := by
  unfold serveNumber
  cases Call.of? p number with
  | none =>
    show fallbackCycles.toNat ≤ 2 ^ 34
    decide
  | some call => exact toNat_serve_le p call _

end Firmware

/-! ## Steps -/

/-- Every access of the console takes a cycle, and calls that are served natively are short of
`2 ^ 35` cycles. -/
theorem core_timed (p : Processor) : (core p).Timed (2 ^ 19) where
  waitTime w address access b := by
    cases p <;> exact (by decide : (1 : UInt16) ≠ 0)
  nativeCall comment b cycles h := by
    have hcall : (nativeCall p comment b).1 = some cycles := by
      cases p <;> exact h
    have hserve : (nativeCall p comment b).1 =
        if b.system.config.nativeFirmware then some (Firmware.serveNumber p comment b).1
        else none := by
      show ((if b.system.config.nativeFirmware then _ else _ : BoardM System (Option UInt64)) b).1 =
        _
      split <;> rfl
    rw [hserve] at hcall
    split at hcall
    · obtain rfl := Option.some.inj hcall
      have hle := Firmware.toNat_serveNumber_le p comment b
      omega
    · cases hcall

namespace Session

/-- By how much a step moves the clock of a processor that can run. -/
theorem scale_step {p : Processor} {b : Board System} (h : (core p).canRun b = true) :
    0 < (scale p ((core p).step b).1).toNat ∧ (scale p ((core p).step b).1).toNat < 2 ^ 37 := by
  obtain ⟨k, hk, hpositive, hcycles⟩ := (core_timed p).step h
  have hk' : (UInt64.ofNat k).toNat = k := by
    rw [UInt64.toNat_ofNat']
    exact Nat.mod_eq_of_lt (by omega)
  rw [hcycles]
  cases p with
  | arm9 =>
    show 0 < (UInt64.ofNat k).toNat ∧ (UInt64.ofNat k).toNat < 2 ^ 37
    omega
  | arm7 =>
    have hshift : (UInt64.ofNat k <<< (1 : UInt64)).toNat = 2 * k := by
      rw [UInt64.toNat_shiftLeft, hk', Nat.shiftLeft_eq]
      show k * 2 ^ 1 % 2 ^ 64 = 2 * k
      omega
    have hscale : scale .arm7 (UInt64.ofNat k) = UInt64.ofNat k <<< (1 : UInt64) := rfl
    rw [hscale]
    omega

theorem clocks_stepCpu (p : Processor) (s : Session) (log : Log) :
    let b := s.board p log
    let cycles := scale p ((core p).step b).1
    (s.stepCpu p log).1.clocks = s.clocks.set p
      (if cycles = 0 then
        idleTarget (s.clocks.get p) (s.clocks.get p.other) (s.cpus.get p.other).isHalted
          ((core p).step b).2.system.queue.nextTime?
      else s.clocks.get p + cycles) := rfl

/-- A step of a processor that can run. -/
theorem stepCpu_of_awake {p : Processor} {s : Session} {log : Log}
    (h : (core p).canRun (s.board p log) = true) :
    ∃ k : UInt64, 0 < k.toNat ∧ k.toNat < 2 ^ 37 ∧
      (s.stepCpu p log).1.clocks = s.clocks.set p (s.clocks.get p + k) := by
  obtain ⟨hpositive, hlt⟩ := scale_step h
  refine ⟨scale p ((core p).step (s.board p log)).1, hpositive, hlt, ?_⟩
  have hne : scale p ((core p).step (s.board p log)).1 ≠ 0 := by
    intro hzero
    rw [hzero] at hpositive
    exact absurd hpositive (by decide)
  rw [clocks_stepCpu, if_neg hne]

/-- A step of a processor that sleeps skips ahead and does nothing else. -/
theorem stepCpu_of_asleep {p : Processor} {s : Session} {log : Log}
    (h : (core p).canRun (s.board p log) = false) :
    s.stepCpu p log =
      ({ s with
          clocks := s.clocks.set p (idleTarget (s.clocks.get p) (s.clocks.get p.other)
            (s.cpus.get p.other).isHalted s.system.queue.nextTime?) }, log) := by
  have hstep : (core p).step (s.board p log) = (0, s.board p log) := Core.step_of_asleep h
  have hscale : scale p 0 = 0 := by cases p <;> rfl
  unfold stepCpu
  change (core p).step { cpu := s.cpus.get p, system := s.system, log } = _ at hstep
  rw [hstep]
  dsimp only [board]
  rw [hscale, if_pos rfl, PerProcessor.set_get]

/-! ## Skipping ahead -/

theorem toNat_min (a b : UInt64) : (min a b).toNat = min a.toNat b.toNat := by
  show (if a ≤ b then a else b).toNat = _
  by_cases h : a ≤ b
  · rw [if_pos h]
    rw [UInt64.le_iff_toNat_le] at h
    omega
  · rw [if_neg h]
    rw [UInt64.le_iff_toNat_le] at h
    omega

/-- The clock of a processor that sleeps goes as far as the next event, or one cycle past the
other processor if that one is not halted and comes first. It never goes back. -/
theorem toNat_idleTarget (own other : UInt64) (otherHalted : Bool) (next : Option UInt64) :
    (idleTarget own other otherHalted next).toNat =
      match next, otherHalted with
      | some t, true => max t.toNat own.toNat
      | some t, false => max (min t.toNat (other + 1).toNat) own.toNat
      | none, true => own.toNat
      | none, false => max (other + 1).toNat own.toNat := by
  unfold idleTarget
  cases next <;> cases otherHalted <;>
    simp only [EventQueue.toNat_max, toNat_min, max_self]

theorem le_idleTarget (own other : UInt64) (otherHalted : Bool) (next : Option UInt64) :
    own.toNat ≤ (idleTarget own other otherHalted next).toNat := by
  rw [toNat_idleTarget]
  cases next <;> cases otherHalted <;> dsimp only <;> omega

/-- With an event ahead, a processor that sleeps gets ahead, too. -/
theorem lt_idleTarget {own other : UInt64} (hbehind : own.toNat ≤ other.toNat)
    (hrange : other.toNat < 2 ^ 63) (otherHalted : Bool) {t : UInt64} (ht : own.toNat < t.toNat) :
    own.toNat < (idleTarget own other otherHalted (some t)).toNat := by
  have hnext : (other + 1).toNat = other.toNat + 1 := by
    rw [UInt64.toNat_add]
    exact Nat.mod_eq_of_lt (by show other.toNat + 1 < 2 ^ 64; omega)
  rw [toNat_idleTarget]
  cases otherHalted <;> dsimp only <;> omega

/-- Skipping ahead stays within a cycle of the other processor exactly if that one is not halted
or no event keeps the skip from ending there. -/
theorem idleTarget_le_iff {own other : UInt64} (hbehind : own.toNat ≤ other.toNat)
    (otherHalted : Bool) (next : Option UInt64) :
    (idleTarget own other otherHalted next).toNat ≤ other.toNat + 1 ↔
      (otherHalted = true → ∀ t, next = some t → t.toNat ≤ other.toNat + 1) := by
  have hnext : (other + 1).toNat ≤ other.toNat + 1 := by
    rw [UInt64.toNat_add]
    exact Nat.mod_le _ _
  rw [toNat_idleTarget]
  cases next with
  | none => cases otherHalted <;> simp <;> omega
  | some t => cases otherHalted <;> simp <;> omega

end Session
end Handheld.Console
