import Handheld.Proofs.Console.Progress

/-!
# Properties of a system and its record

What can be said of the waiting events often takes the past to say it: when was the unit started,
how often has the timer run over. Such a property speaks of a system together with the record of
what has happened to it. `Chronicle` lists what each single happening has to do with it, and
`Chronicle.step` is what follows for every step of a session. `Chronicle.since` speaks of the record
since a write.

A session that was loaded has the past of the one that was saved: `Session.Past`.
-/

namespace Handheld.Console

open Handheld.Console.System (Punctual)

/-- A property of a system and its record that each happening keeps. Only the timers, the math
units and the queue count. While a processor acts, all that waits is ahead of the clock; while
events are fired, it is not behind. -/
structure Chronicle (P : System → List Happening → Prop) : Prop where
  congr : ∀ {s s' t}, P s t → s'.timers = s.timers → s'.divider = s.divider →
    s'.squareRoot = s.squareRoot → s'.queue = s.queue → P s' t
  wrote : ∀ {s t}, Punctual 1 s → s.queue.now.toNat < clockBound → P s t →
    ∀ p lanes log r,
      P (s.writeIo p lanes log r).1 (t ++ [.wrote p r s (s.writeIo p lanes log r).1])
  paused : ∀ {s t}, s.Sound → P s t → ∀ delay,
    P { s with queue := s.queue.schedule .pause delay } t
  fired : ∀ {s t target event queue}, Punctual 0 s → target.toNat < clockBound →
    s.queue.now.toNat ≤ target.toNat → s.queue.popDue target = some (event, queue) → P s t →
    ∀ log, P (({ s with queue } : System).dispatch event log).1 (t ++ [.fired event queue.now])
  passed : ∀ {s t target}, Punctual 0 s → target.toNat < clockBound →
    s.queue.now.toNat ≤ target.toNat → s.queue.popDue target = none → P s t →
    P { s with queue := { s.queue with now := max s.queue.now target } } t
  lowered : ∀ {s : Session} {t}, s.system.Sound →
    (∀ e ∈ s.system.queue.events, 0 ≤ e.time.toInt) → P s.system t →
    P s.rebase.system (t ++ [.lowered s.system.queue.rebase.1])

namespace Chronicle

variable {P Q : System → List Happening → Prop} (c : Chronicle P)

include c

/-- Whatever a processor does keeps the property. -/
theorem monitor {now : UInt64} (hnow : now.toNat < clockBound) :
    Monitor fun s t => (Punctual 1 s ∧ s.queue.now = now) ∧ P s t := by
  have hpunctual := System.punctual_monitor (k := 1) (by omega) hnow
  exact
    { memory := fun stored h =>
        ⟨hpunctual.memory (t := []) stored h.1, c.congr h.2 rfl rfl rfl rfl⟩
      control := fun written h =>
        ⟨hpunctual.control (t := []) written h.1, c.congr h.2 rfl rfl rfl rfl⟩
      interrupts := fun x h =>
        ⟨hpunctual.interrupts (t := []) x h.1, c.congr h.2 rfl rfl rfl rfl⟩
      wrote := fun p lanes log r h =>
        ⟨hpunctual.wrote (t := []) p lanes log r h.1,
          c.wrote h.1.1 (by rw [h.1.2]; exact hnow) h.2 p lanes log r⟩ }

/-- So does firing the events that are due. -/
theorem settle {target : UInt64} (hrange : target.toNat < clockBound) {fuel : ℕ} {s s' : System}
    {t : List Happening} {log log' : Log} (hpunctual : Punctual 0 s)
    (hnow : s.queue.now.toNat ≤ target.toNat) (hP : P s t)
    (returned : Session.settleWithin fuel target s log = some (s', log')) :
    P s' (t ++ Session.settleTrace fuel target s log) := by
  induction fuel using Nat.strong_induction_on generalizing s t log with
  | _ fuel ih =>
    rcases Session.settle_inversion returned with ⟨hpop, rfl, htrace⟩ |
      ⟨left, event, queue, rfl, hpop, hrest, htrace⟩
    · rw [htrace, List.append_nil]
      exact c.passed hpunctual hrange hnow hpop hP
    · obtain ⟨hnext, hle, -⟩ := hpunctual.fire hrange hnow hpop log
      have hfired := ih left (Nat.lt_succ_self left) hnext hle
        (c.fired hpunctual hrange hnow hpop hP log) hrest
      rwa [List.append_assoc, List.singleton_append, ← htrace] at hfired

/-- Every step of a session keeps the property. -/
theorem step {s s' : Session} {t u : List Happening} (h : s.Consistent)
    (hnow : s.now.toNat < 2 ^ 62) (hP : P s.system t) (hstep : s.Step u s')
    (range : s'.now.toNat < 2 ^ 62) : P s'.system (t ++ u) := by
  have hclock : clockBound = 2 ^ 62 + 2 ^ 32 := rfl
  have hbelow : s.now.toNat < clockBound := by omega
  have hmonitor := c.monitor hbelow
  have hstart : (Punctual 1 s.system ∧ s.system.queue.now = s.now) ∧ P s.system t :=
    ⟨⟨h.punctual, rfl⟩, hP⟩
  cases hstep with
  | @advance _ log log' returned =>
    obtain ⟨fuel, settled, log'', hsettle, rfl, htrace, hbound, hsound, hpositive⟩ :=
      Session.advance_inversion h.punctual.sound returned range
    obtain ⟨-, hstepped⟩ := hmonitor.instruction s.next hstart log
    obtain ⟨hpunctual, hle⟩ := h.stepped hnow log
    have hsettled := c.settle hbound hpunctual hle hstepped hsettle
    rw [htrace, ← List.append_assoc, ← List.append_assoc]
    exact c.lowered (s := { (s.stepCpu s.next log).1 with system := settled }) hsound hpositive
      hsettled
  | instruction p log => exact (hmonitor.instruction p hstart log).2
  | read p w address log =>
    rw [List.append_nil, Monitor.hostRead]
    exact hP
  | write p w address value log => exact (hmonitor.hostWrite p w address value hstart log).2
  | interrupt p i =>
    rw [List.append_nil]
    exact c.congr hP rfl rfl rfl rfl
  | replaceCpu p cpu =>
    rw [List.append_nil]
    exact hP
  | boot entry9 entry7 =>
    rw [List.append_nil]
    exact c.congr hP rfl rfl rfl rfl
  | prepare cycles log =>
    rw [List.append_nil]
    exact c.congr (c.paused h.punctual.sound hP cycles.toInt64) rfl rfl rfl rfl

/-- Every run of a session keeps the property. -/
theorem run {s s' : Session} {t u : List Happening} (reachable : s.Reachable) (hP : P s.system t)
    (hrun : s.Run u s') : P s'.system (t ++ u) ∧ s'.Reachable := by
  induction hrun with
  | refl =>
    rw [List.append_nil]
    exact ⟨hP, reachable⟩
  | step _ hstep range ih =>
    rw [← List.append_assoc]
    exact ⟨c.step ih.2.consistent ih.2.sound.2 ih.1 hstep range, ih.2.step hstep range⟩

/-! ## Since an entry -/

omit c in
/-- The last entry of a record is the one that splits it, or comes later. -/
theorem split_concat {t earlier later : List Happening} {x h : Happening}
    (heq : t ++ [x] = earlier ++ h :: later) :
    later = [] ∧ h = x ∨ ∃ later', later = later' ++ [x] ∧ t = earlier ++ h :: later' := by
  induction later using List.reverseRecOn with
  | nil => exact .inl ⟨rfl, (List.cons.inj (List.append_inj' heq rfl).2).1.symm⟩
  | append_singleton later' y =>
    rw [← List.cons_append, ← List.append_assoc] at heq
    obtain ⟨ht, hx⟩ := List.append_inj' heq rfl
    obtain rfl := (List.cons.inj hx).1
    exact .inr ⟨later', rfl, ht⟩

/-- A property that a write of some kind brings about is kept since every such write, the record
starting anew with it. Of the system that is written to, what is kept all along is known. -/
theorem since (hQ : Chronicle Q) (start : Happening → Prop)
    (wrote : ∀ {s t}, Punctual 1 s → s.queue.now.toNat < clockBound → Q s t →
      ∀ p lanes log r, start (.wrote p r s (s.writeIo p lanes log r).1) →
        P (s.writeIo p lanes log r).1 [])
    (fired : ∀ event now, ¬ start (.fired event now))
    (lowered : ∀ amount, ¬ start (.lowered amount)) :
    Chronicle fun s t => Q s t ∧
      ∀ earlier h later, t = earlier ++ h :: later → start h → P s later where
  congr h htimers hdivider hroot hqueue :=
    ⟨hQ.congr h.1 htimers hdivider hroot hqueue, fun earlier x later ht hx =>
      c.congr (h.2 earlier x later ht hx) htimers hdivider hroot hqueue⟩
  wrote hpunctual hnow h p lanes log r := by
    refine ⟨hQ.wrote hpunctual hnow h.1 p lanes log r, fun earlier x later ht hx => ?_⟩
    rcases split_concat ht with ⟨rfl, rfl⟩ | ⟨later', rfl, rfl⟩
    · exact wrote hpunctual hnow h.1 p lanes log r hx
    · exact c.wrote hpunctual hnow (h.2 earlier x later' rfl hx) p lanes log r
  paused hsound h delay :=
    ⟨hQ.paused hsound h.1 delay, fun earlier x later ht hx =>
      c.paused hsound (h.2 earlier x later ht hx) delay⟩
  fired hpunctual hrange hnow hpop h log := by
    refine ⟨hQ.fired hpunctual hrange hnow hpop h.1 log, fun earlier x later ht hx => ?_⟩
    rcases split_concat ht with ⟨-, rfl⟩ | ⟨later', rfl, rfl⟩
    · exact absurd hx (fired _ _)
    · exact c.fired hpunctual hrange hnow hpop (h.2 earlier x later' rfl hx) log
  passed hpunctual hrange hnow hpop h :=
    ⟨hQ.passed hpunctual hrange hnow hpop h.1, fun earlier x later ht hx =>
      c.passed hpunctual hrange hnow hpop (h.2 earlier x later ht hx)⟩
  lowered hsound hpositive h := by
    refine ⟨hQ.lowered hsound hpositive h.1, fun earlier x later ht hx => ?_⟩
    rcases split_concat ht with ⟨-, rfl⟩ | ⟨later', rfl, rfl⟩
    · exact absurd hx (lowered _)
    · exact c.lowered hsound hpositive (h.2 earlier x later' rfl hx)

end Chronicle

namespace Session

/-- What has happened to a session since the console was switched on. A session that was loaded
has the past of the one that was saved. -/
inductive Past : Session → List Happening → Prop
  | new (config : Config) : Past (new config) []
  | step {s s' : Session} {t u : List Happening} (past : Past s t) (step : Step s u s')
      (range : s'.now.toNat < 2 ^ 62) : Past s' (t ++ u)
  | restored {saved current : Session} {t u : List Happening} (past : Past saved t)
      (other : Past current u) : Past (saved.restored current) t

theorem Past.reachable {s : Session} {t : List Happening} (h : s.Past t) : s.Reachable := by
  induction h with
  | new config => exact .new config
  | step _ step range ih => exact ih.step step range
  | restored _ _ ih other => exact ih.restored other

/-- Every session that a console can come to has a past. -/
theorem Reachable.past {s : Session} (h : s.Reachable) : ∃ t, s.Past t := by
  induction h with
  | new config => exact ⟨[], .new config⟩
  | step _ step range ih =>
    obtain ⟨t, past⟩ := ih
    exact ⟨_, past.step step range⟩
  | restored _ _ ih other =>
    obtain ⟨t, past⟩ := ih
    obtain ⟨u, current⟩ := other
    exact ⟨t, past.restored current⟩

end Session

/-- What holds of a console that was just switched on, and is kept by each happening, holds of every
session and its past. -/
theorem Chronicle.past {P : System → List Happening → Prop} (c : Chronicle P)
    (initial : ∀ config, P { config } []) {s : Session} {t : List Happening} (h : s.Past t) :
    P s.system t := by
  induction h with
  | new config => exact initial config
  | step past step range ih =>
    exact c.step past.reachable.consistent past.reachable.sound.2 ih step range
  | restored _ _ ih _ => exact c.congr ih rfl rfl rfl rfl

end Handheld.Console
