/-!
# Small index types

The machine numbers its registers, banks, conditions, timers and table rows from zero, and few of
them at a time, so an index is a member of `Fin n`. The instances here name the sizes that occur:
they let a numeral stand for an index, and a number count modulo the size.
-/

namespace Handheld

/-- A size of an index type that has members. -/
abbrev Positive (size : Nat) : Prop := @NeZero Nat Zero.ofOfNat0 size

instance size3 : Positive 3 := ⟨by decide⟩
instance size4 : Positive 4 := ⟨by decide⟩
instance size6 : Positive 6 := ⟨by decide⟩
instance size8 : Positive 8 := ⟨by decide⟩
instance size16 : Positive 16 := ⟨by decide⟩
instance size64 : Positive 64 := ⟨by decide⟩

end Handheld
