import Handheld.Arm.Listing
import Handheld.Thumb.Decode
import Handheld.Thumb.Term

/-!
# Listing of short instructions

How a halfword reads in a listing. A listing always shows the ARMv5 meaning.
-/

namespace Handheld.Thumb

open Arm (line)

/-- The registers of a list, each behind a space. -/
def registersText (list : UInt8) : String :=
  String.join ((LowRegister.ofSet list).map (" " ++ ·.name))

/-- A single transfer. -/
def transferText (mnemonic : String) (d : LowRegister) (base offset : String) : String :=
  line mnemonic [d.name, "[" ++ base ++ ", " ++ offset ++ "]"]

/-- An instruction. -/
def Instruction.text (inst : UInt16) : Instruction → String
  | unknown => unknownText inst.toNat
  | shift op d s amount =>
    line op.mnemonic [d.name, s.name, "$" ++ Term.natural amount.toNat]
  | addSubtract subtract d s n => line (if subtract then "sub" else "add") [d.name, s.name, n.name]
  | immediate op d value => line op.mnemonic [d.name, Address.text value]
  | alu op d s => if op = .tst then line "tst" [s.name] else line op.mnemonic [d.name, s.name]
  | highAdd s d => line "add" [d.name, s.name]
  | highCompare s d => line "cmp" [d.name, s.name]
  | highMove s d => line "mov" [d.name, s.name]
  | exchange s link => line (if link then "blx" else "bx") [s.name]
  | loadLiteral d offset => transferText "ldr" d "PC" (Address.text offset)
  | transferRegister op d b o => transferText op.mnemonic d b.name o.name
  | transferImmediate op d b offset => transferText op.mnemonic d b.name (Address.text offset)
  | transferStack load d offset =>
    transferText (if load then "ldr" else "str") d "sp" (Address.text offset)
  | relativeAddress sp d offset =>
    line "add" [d.name, if sp then "sp" else "pc", Address.text offset]
  | moveStack offset => line "add" ["sp", Address.offsetText offset]
  | push list lr => "push" ++ registersText list ++ if lr then " lr" else ""
  | pop list pc => "pop" ++ registersText list ++ if pc then " pc" else ""
  | storeBlock b list => "stmia " ++ b.name ++ "!," ++ registersText list
  | loadBlock b list => "ldmia " ++ b.name ++ "!," ++ registersText list
  | branchIf condition offset => line ("b" ++ conditionSuffix condition) [Address.offsetText offset]
  | softwareInterrupt _ => "swi"
  | branch offset => line "b" [Address.offsetText offset]
  | prepareCall offset => line "mov" ["lr", "(pc + " ++ Address.offsetText offset ++ ")"]
  | call offset short => line (if short then "bl" else "blx") ["lr + " ++ Address.text offset]

/-- How a halfword reads in a listing. -/
def listing (inst : UInt16) : String := (decode true inst).text inst

end Handheld.Thumb
