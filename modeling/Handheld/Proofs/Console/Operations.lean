import Mathlib
import Handheld.Console.Saved
import Handheld.Proofs.Console.Invariants
import Handheld.Proofs.Console.Progress

/-!
# Operations on a session

What a program around a session can do with it and what it is answered. A session that was loaded
from bytes of any origin counts as well, so nothing here supposes that clocks are in range or that
an event queue is in order.
-/

namespace Handheld.Console

namespace Session

/-- What a program can do with a session. -/
inductive Operation where
  | advance
  | run (cycles : UInt64)
  | instruction (p : Processor)
  | read (p : Processor) (w : Width) (address : UInt32)
  | write (p : Processor) (w : Width) (address value : UInt32)
  | interrupt (p : Processor) (i : Interrupt)
  | replaceCpu (p : Processor) (cpu : CpuState)
  | boot (entry9 entry7 : UInt32)
  | save
  | load (bytes : ByteArray)

/-- What a program is answered. -/
inductive Answer where
  | done
  | cycles (cycles : UInt64)
  | value (value : UInt32)
  | saved (bytes : ByteArray)
  | loaded
  | failed (cause : LoadError)

namespace Operation

/-- Do something with a session. Without a result if the session does not come to an end. -/
def perform (s : Session) (log : Log) : Operation → Option (Answer × Session × Log)
  | advance => (s.advance? log).map fun (s', log') => (.done, s', log')
  | run cycles => (s.runFor? cycles log).map fun (s', log') => (.done, s', log')
  | instruction p =>
    let (cycles, s', log') := s.onBoard p (core p).step log
    some (.cycles cycles, s', log')
  | read p w address =>
    let (value, s', log') := s.read p w address log
    some (.value value, s', log')
  | write p w address value =>
    let (s', log') := s.write p w address value log
    some (.done, s', log')
  | interrupt p i => some (.done, s.requestInterrupt p i, log)
  | replaceCpu p cpu => some (.done, { s with cpus := s.cpus.set p cpu }, log)
  | boot entry9 entry7 => some (.done, s.directBoot entry9 entry7, log)
  | save => some (.saved s.save, s, log)
  | load bytes =>
    match s.load bytes log with
    | (.ok s', log') => some (.loaded, s', log')
    | (.error cause, log') => some (.failed cause, s, log')

/-- Do several things, one after the other. -/
def performAll : List Operation → Session → Log → Option (List Answer × Session × Log)
  | [], s, log => some ([], s, log)
  | operation :: operations, s, log =>
    match operation.perform s log with
    | none => none
    | some (answer, s', log') =>
      (performAll operations s' log').map fun (answers, rest) => (answer :: answers, rest)

end Operation

/-- The sessions that operations lead to. -/
inductive Operated : Session → Prop
  | new (config : Config) : Operated (new config)
  | operation {s s' : Session} {operation : Operation} {answer : Answer} {log log' : Log}
      (operated : Operated s) (performed : operation.perform s log = some (answer, s', log')) :
      Operated s'

/-! ## What an operation is made of -/

/-- Several steps, whatever the clocks are. -/
abbrev Steps : Session → Session → Prop := Relation.ReflTransGen fun s s' => ∃ t, Step s t s'

theorem Advances.steps {s s' : Session} (h : Advances s s') : Steps s s' :=
  Relation.ReflTransGen.mono (fun _ _ ⟨_, _, returned⟩ => ⟨_, .advance returned⟩) _ _ h

/-- An operation that loads no state is a sequence of steps. -/
theorem Operation.steps {operation : Operation} {s s' : Session} {answer : Answer}
    {log log' : Log} (performed : operation.perform s log = some (answer, s', log')) :
    Steps s s' ∨ ∃ bytes, operation = .load bytes ∧ s.load bytes log = (.ok s', log') := by
  cases operation with
  | advance =>
    obtain ⟨⟨s₁, log₁⟩, hreturned, houtcome⟩ := Option.map_eq_some_iff.mp performed
    obtain ⟨-, rfl, -⟩ := houtcome
    exact .inl (.single ⟨_, .advance hreturned⟩)
  | run cycles =>
    obtain ⟨⟨s₁, log₁⟩, hreturned, houtcome⟩ := Option.map_eq_some_iff.mp performed
    obtain ⟨-, rfl, -⟩ := houtcome
    exact .inl (.head ⟨_, .prepare s cycles log⟩ (Advances.steps (advances_of_runFor hreturned)))
  | instruction p =>
    obtain ⟨-, rfl, -⟩ := Option.some.inj performed
    exact .inl (.single ⟨_, .instruction s p log⟩)
  | read p w address =>
    obtain ⟨-, rfl, -⟩ := Option.some.inj performed
    exact .inl (.single ⟨_, .read s p w address log⟩)
  | write p w address value =>
    obtain ⟨-, rfl, -⟩ := Option.some.inj performed
    exact .inl (.single ⟨_, .write s p w address value log⟩)
  | interrupt p i =>
    obtain ⟨-, rfl, -⟩ := Option.some.inj performed
    exact .inl (.single ⟨_, .interrupt s p i⟩)
  | replaceCpu p cpu =>
    obtain ⟨-, rfl, -⟩ := Option.some.inj performed
    exact .inl (.single ⟨_, .replaceCpu s p cpu⟩)
  | boot entry9 entry7 =>
    obtain ⟨-, rfl, -⟩ := Option.some.inj performed
    exact .inl (.single ⟨_, .boot s entry9 entry7⟩)
  | save =>
    obtain ⟨-, rfl, -⟩ := Option.some.inj performed
    exact .inl .refl
  | load bytes =>
    rcases hload : s.load bytes log with ⟨cause | loaded, log₁⟩
    · simp only [perform, hload] at performed
      obtain ⟨-, rfl, -⟩ := Option.some.inj performed
      exact .inl .refl
    · simp only [perform, hload] at performed
      obtain ⟨-, rfl, rfl⟩ := Option.some.inj performed
      exact .inr ⟨bytes, rfl, hload⟩

end Session

/-- Steps keep an invariant of the devices. -/
theorem Invariant.steps {P : System → Prop} (inv : Invariant P) {s s' : Session}
    (h : P s.system) (steps : s.Steps s') : P s'.system := by
  induction steps with
  | refl => exact h
  | tail _ step ih =>
    obtain ⟨t, step⟩ := step
    exact inv.step ih step

end Handheld.Console
