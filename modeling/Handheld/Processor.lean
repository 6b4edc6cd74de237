/-!
# The two processors

The main processor of the machine implements ARMv5TE, its companion ARMv4T. The one value names
both the instruction set version and the place in the machine.
-/

namespace Handheld

/-- A processor of the machine. -/
inductive Processor where
  /-- The companion processor, ARMv4T. -/
  | arm7
  /-- The main processor, ARMv5TE. -/
  | arm9
  deriving DecidableEq, Repr, Inhabited

namespace Processor

/-- Whether the processor has the ARMv5 additions. -/
def isV5 : Processor → Bool
  | arm7 => false
  | arm9 => true

/-- The processor's name in log lines. -/
def name : Processor → String
  | arm7 => "ARM7"
  | arm9 => "ARM9"

/-- The other processor of the machine. -/
def other : Processor → Processor
  | arm7 => arm9
  | arm9 => arm7

@[simp] theorem other_other (p : Processor) : p.other.other = p := by cases p <;> rfl

end Processor
end Handheld
