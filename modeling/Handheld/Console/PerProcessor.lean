import Handheld.Codec
import Handheld.Processor

/-!
# Devices that exist once per processor
-/

namespace Handheld

/-- One value for each processor. -/
structure PerProcessor (α : Type) where
  arm7 : α
  arm9 : α
  deriving DecidableEq, Repr, Inhabited

namespace PerProcessor

variable {α : Type}

/-- The value of a processor. -/
def get (x : PerProcessor α) : Processor → α
  | .arm7 => x.arm7
  | .arm9 => x.arm9

/-- Overwrite the value of a processor. -/
def set (x : PerProcessor α) (p : Processor) (value : α) : PerProcessor α :=
  match p with
  | .arm7 => { x with arm7 := value }
  | .arm9 => { x with arm9 := value }

/-- Change the value of a processor. -/
def modify (x : PerProcessor α) (p : Processor) (f : α → α) : PerProcessor α :=
  match p with
  | .arm7 => { x with arm7 := f x.arm7 }
  | .arm9 => { x with arm9 := f x.arm9 }

/-- Change both values. -/
def map {β : Type} (x : PerProcessor α) (f : α → β) : PerProcessor β := ⟨f x.arm7, f x.arm9⟩

@[simp] theorem get_set_self (x : PerProcessor α) (p : Processor) (a : α) :
    (x.set p a).get p = a := by cases p <;> rfl

@[simp] theorem get_set_other (x : PerProcessor α) (p : Processor) (a : α) :
    (x.set p a).get p.other = x.get p.other := by cases p <;> rfl

@[simp] theorem set_get (x : PerProcessor α) (p : Processor) : x.set p (x.get p) = x := by
  cases p <;> rfl

@[simp] theorem get_modify_self (x : PerProcessor α) (p : Processor) (f : α → α) :
    (x.modify p f).get p = f (x.get p) := by cases p <;> rfl

@[simp] theorem get_modify_other (x : PerProcessor α) (p : Processor) (f : α → α) :
    (x.modify p f).get p.other = x.get p.other := by cases p <;> rfl

/-- The saved form: the companion processor's value, then the main processor's. -/
def codec (c : Codec α) : Codec (PerProcessor α) :=
  (c.pair c).imap (fun (a, b) => ⟨a, b⟩) (fun x => (x.arm7, x.arm9))

end PerProcessor
end Handheld
