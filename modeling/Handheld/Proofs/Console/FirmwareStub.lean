import Handheld.Proofs.Console.Callbacks
import Handheld.Proofs.Cpu.Looking

/-!
# The firmware stub as code

Where the stub lies at a processor's vectors, its words are what the processor fetches there. Only
the control coprocessor decides on that: on the companion processor the stub is always there, on
the main processor it is while the vectors are high and no window covers it.
-/

namespace Handheld.Console

open Word CpuState

/-- Reading the console changes nothing but the log. -/
theorem core_looking (p : Processor) : (core p).Looking (stored p) where
  quiet := core_quietEntry p
  backed := core_backed p
  read w address b := by cases p <;> exact (looks_read _ w address).system b
  waitTime _ _ _ _ := by cases p <;> rfl
  onException _ _ := by cases p <;> rfl

/-- Where the exception vectors of a processor start. -/
abbrev vectors (p : Processor) (s : System) : UInt32 := (core p).vectorBase s

/-- The vectors are at the bottom of the address space or close to its top. -/
theorem vectors_cases (p : Processor) (s : System) :
    vectors p s = 0 ∨ vectors p s = 0xFFFF0000 := by
  cases p with
  | arm7 => exact .inl rfl
  | arm9 =>
    show s.control.vectorBase = 0 ∨ s.control.vectorBase = 0xFFFF0000
    unfold SystemControl.vectorBase
    split
    · exact .inr rfl
    · exact .inl rfl

theorem size_stub_le (p : Processor) : (Firmware.stub p).size ≤ 15 := by cases p <;> decide

/-- Where a word of the stub is found. -/
def stubWord (p : Processor) (s : System) (i : Nat) : UInt32 := vectors p s + 4 * UInt32.ofNat i

/-- Reads of the stub's words from the vectors on lead to the stub. -/
def StubMapped (p : Processor) (s : System) : Prop :=
  ∀ i < (Firmware.stub p).size,
    s.target p (stubWord p s i) false = .stub (4 * UInt32.ofNat i)

theorem stubMapped_arm7 (s : System) : StubMapped .arm7 s := by
  intro i hi
  have hsize : (Firmware.stub .arm7).size = 12 := rfl
  show busTarget .arm7 (0 + 4 * UInt32.ofNat i) = _
  rw [hsize] at hi
  interval_cases i <;> rfl

/-- With high vectors the main processor finds its stub there, unless a window covers it. -/
theorem stubMapped_arm9 {s : System} (hhigh : s.control.vectorBase = 0xFFFF0000)
    (hfree : ∀ tcm address, 0xFFFF0000 ≤ address → s.control.tcmOffset? tcm address false = none) :
    StubMapped .arm9 s := by
  intro i hi
  have hbase : vectors .arm9 s = 0xFFFF0000 := hhigh
  have hsize : (Firmware.stub .arm9).size = 15 := rfl
  have hbus : busTarget .arm9 (0xFFFF0000 + 4 * UInt32.ofNat i) = .stub (4 * UInt32.ofNat i) := by
    rw [hsize] at hi
    interval_cases i <;> rfl
  have hrange : 0xFFFF0000 ≤ 0xFFFF0000 + 4 * UInt32.ofNat i := by
    rw [hsize] at hi
    interval_cases i <;> decide
  unfold stubWord System.target
  rw [hbase, hfree .inst _ hrange, hfree .data _ hrange]
  exact hbus

/-- Both windows end below its stub as long as nothing was programmed. -/
theorem stubMapped_initial {s : System} (h : s.control = .initial) : StubMapped .arm9 s := by
  refine stubMapped_arm9 (by rw [h]; rfl) fun tcm address hhigh => ?_
  have hbeyond : ∀ w : TcmWindow, w.stop ≤ 0xFFFF0000 → ∀ size : UInt32,
      w.offset? size address false = none := by
    intro w hstop size
    have hpast : ¬ address < w.stop := UInt32.not_lt.mpr (UInt32.le_trans hstop hhigh)
    unfold TcmWindow.offset?
    simp only [decide_eq_false hpast, Bool.and_false, Bool.false_eq_true, ↓reduceIte]
  rw [h]
  cases tcm with
  | data => exact hbeyond SystemControl.initial.dataWindow (by decide) _
  | inst => exact hbeyond SystemControl.initial.instWindow (by decide) _

variable {p : Processor} {s t : System}

theorem vectors_congr (p : Processor) (h : t.control = s.control) : vectors p t = vectors p s := by
  cases p with
  | arm7 => rfl
  | arm9 => exact congrArg SystemControl.vectorBase h

theorem target_congr (p : Processor) (h : t.control = s.control) (address : UInt32)
    (write : Bool) : t.target p address write = s.target p address write := by
  cases p with
  | arm7 => rfl
  | arm9 =>
    unfold System.target
    rw [h]

theorem stubWord_congr (p : Processor) (h : t.control = s.control) (i : Nat) :
    stubWord p t i = stubWord p s i := by
  unfold stubWord
  rw [vectors_congr p h]

/-- Nothing but the control coprocessor decides where the stub is found. -/
theorem StubMapped.congr (h : StubMapped p s) (hcontrol : t.control = s.control) :
    StubMapped p t := by
  intro i hi
  rw [stubWord_congr p hcontrol, target_congr p hcontrol]
  exact h i hi

/-- The words of the stub follow each other. -/
theorem stubWord_succ (p : Processor) (s : System) (i : Nat) :
    stubWord p s (i + 1) = stubWord p s i + 4 := by
  unfold stubWord
  rw [UInt32.ofNat_add]
  grind

theorem alignDown_stubWord (p : Processor) (s : System) {i : Nat}
    (hi : i < 16) : Address.alignDown (stubWord p s i) 4 = stubWord p s i := by
  -- From either base the words are few enough to be checked one by one.
  unfold stubWord
  rcases vectors_cases p s with hbase | hbase <;> rw [hbase] <;> interval_cases i <;> rfl

/-- The processor fetches the words of the stub from there. -/
theorem StubMapped.stored_word (h : StubMapped p s) {i : Nat} (hi : i < (Firmware.stub p).size) :
    stored p s .word (stubWord p s i) = (Firmware.stub p)[i] := by
  have hle := size_stub_le p
  have hword : Firmware.stubRead p (4 * UInt32.ofNat i) = (Firmware.stub p)[i] := by
    cases p with
    | arm7 =>
      have hsize : (Firmware.stub .arm7).size = 12 := rfl
      have hlt : i < 12 := hsize ▸ hi
      interval_cases i <;> rfl
    | arm9 =>
      have hsize : (Firmware.stub .arm9).size = 15 := rfl
      have hlt : i < 15 := hsize ▸ hi
      interval_cases i <;> rfl
  have hread : read p .word (stubWord p s i) { cpu := {}, system := s, log := {} } =
      (Firmware.stubRead p (4 * UInt32.ofNat i), { cpu := {}, system := s, log := {} }) := by
    have haligned : Address.alignDown (stubWord p s i) Width.word.bytes = stubWord p s i :=
      alignDown_stubWord p s (by omega)
    unfold read
    rw [haligned, BoardM.ask_bind]
    dsimp only
    rw [h i hi]
    rfl
  unfold stored
  rw [hread, hword]
  rfl

end Handheld.Console
