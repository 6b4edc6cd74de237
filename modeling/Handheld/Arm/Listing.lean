import Handheld.Address
import Handheld.Arm.Decode
import Handheld.Arm.Term

/-!
# Listing of long instructions

How a word reads in a listing. A listing always shows the ARMv5 meaning.
-/

namespace Handheld

/-! ## Parts of a line -/

/-- The condition as a suffix of a mnemonic. -/
def conditionSuffix : Fin 16 → String
  | 0 => "eq" | 1 => "ne" | 2 => "cs" | 3 => "cc" | 4 => "mi" | 5 => "pl" | 6 => "vs" | 7 => "vc"
  | 8 => "hi" | 9 => "ls" | 10 => "ge" | 11 => "lt" | 12 => "gt" | 13 => "le" | 14 => ""
  | _ => "nv"

/-- An opcode without meaning. -/
def unknownText (inst : Nat) : String := Hex.digits inst ++ "??"

namespace Arm

/-- The second operand of a data-processing operation. -/
def Operand.text : Operand → String
  | immediate value rotate => Address.text (Word.rotateRight value rotate)
  | shiftedImmediate m shift amount =>
    if amount = 0 then
      match shift with
      | .lsl => m.name
      | .ror => m.name ++ " rrx"
      | _ => m.name ++ " " ++ shift.name ++ " $32"
    else m.name ++ " " ++ shift.name ++ " $" ++ Term.natural amount.toNat
  | shiftedRegister m shift amount => m.name ++ " " ++ shift.name ++ " " ++ amount.name

/-- The offset of a single transfer, with its sign, behind a comma. -/
def Offset.text (up : Bool) (offset : Offset) : String :=
  let sign := if up then "" else "-"
  match offset with
  | immediate value =>
    if value = 0 then "" else ", $" ++ sign ++ "0x" ++ Hex.digits value.toNat
  | register m => ", " ++ sign ++ m.name
  | shiftedRegister base shift amount =>
    if amount = 0 then ", " ++ sign ++ base.name
    else ", " ++ sign ++ base.name ++ " " ++ shift.name ++ " $" ++ Term.natural amount.toNat

/-- The suffix of a single transfer's mnemonic. -/
def TransferKind.suffix : TransferKind → String
  | loadByte | storeByte => "b"
  | loadSignedByte => "sb"
  | loadHalf | storeHalf => "h"
  | loadSignedHalf => "sh"
  | loadWord | storeWord => ""
  | loadDouble | storeDouble => "d"

/-- A single transfer. -/
def transferText (cc : String) (n d : Register) (offset : Offset) (mode : TransferMode) : String :=
  let op := if mode.kind.isLoad then "ldr" else "str"
  let head := op ++ cc ++ mode.kind.suffix ++ " " ++ d.name ++ ", [" ++ n.name
  if mode.pre then
    head ++ offset.text mode.up ++ "]" ++ if mode.writeback then "!" else ""
  else head ++ "]" ++ offset.text mode.up

/-- The mnemonic of a block transfer's addressing. -/
def BlockMode.suffix (t : BlockMode) : String :=
  match t.pre, t.up with
  | true, true => "ib"
  | true, false => "db"
  | false, true => "ia"
  | false, false => "da"

/-- A transfer to or from a coprocessor. -/
def coprocessorText (op cc : String) (c : Coprocessor) : String :=
  op ++ cc ++ " p" ++ Term.natural c.pn.toNat ++ ", " ++ Term.natural c.opc.toNat ++ ", "
    ++ c.d.name ++ ", c" ++ Term.natural c.cn.toNat ++ ", c" ++ Term.natural c.cm.toNat ++ ", "
    ++ Term.natural c.cp.toNat

/-- A list of names behind one mnemonic, separated by commas. -/
def line (mnemonic : String) (operands : List String) : String :=
  mnemonic ++ " " ++ ", ".intercalate operands

/-- An instruction under a condition. -/
def Instruction.text (inst : UInt32) (cc : String) : Instruction → String
  | unknown => unknownText inst.toNat
  | softwareInterrupt _ => "swi" ++ cc
  | branch offset link => line ((if link then "bl" else "b") ++ cc) [Address.offsetText offset]
  | callShort offset => line "blx" [Address.offsetText offset]
  | exchange m => line ("bx" ++ cc) [m.name]
  | callExchange m => line ("blx" ++ cc) [m.name]
  | alu op setFlags n d operand =>
    -- Comparisons always set the flags.
    let mnemonic := op.mnemonic ++ cc ++ if setFlags && op.writes then "s" else ""
    let registers :=
      match op with
      | .mov | .mvn => [d.name]
      | .tst | .teq | .cmp | .cmn => [n.name]
      | _ => [d.name, n.name]
    line mnemonic (registers ++ [operand.text])
  | multiply op setFlags d n s m =>
    let mnemonic := op.mnemonic ++ cc ++ if setFlags then "s" else ""
    match op with
    | .mul => line mnemonic [d.name, m.name, s.name]
    | .mla => line mnemonic [d.name, m.name, s.name, n.name]
    | _ => line mnemonic [n.name, d.name, m.name, s.name]
  | halfMultiply op d n s m xTop yTop =>
    let x := if xTop then "t" else "b"
    let y := if yTop then "t" else "b"
    match op with
    | .smla => line ("smla" ++ x ++ y ++ cc) [d.name, m.name, s.name, n.name]
    | .smlaw => line ("smlaw" ++ y ++ cc) [d.name, m.name, s.name, n.name]
    | .smulw => line ("smulw" ++ y ++ cc) [d.name, m.name, s.name]
    | .smlal => line ("smlal" ++ x ++ y ++ cc) [n.name, d.name, m.name, s.name]
    | .smul => line ("smul" ++ x ++ y ++ cc) [d.name, m.name, s.name]
  | leadingZeros d m => line ("clz" ++ cc) [d.name, m.name]
  | saturating op d n m => line (op.mnemonic ++ cc) [d.name, m.name, n.name]
  | readStatus d saved => line ("mrs" ++ cc) [d.name, if saved then "spsr" else "cpsr"]
  | writeStatus source flags control saved =>
    let target :=
      (if saved then "spsr" else "cpsr") ++ (if control then "_ctrl" else "")
        ++ if flags then "_flg" else ""
    line ("msr" ++ cc)
      [target,
        match source with
        | .immediate value => Address.text value
        | .register m => m.name]
  | transfer n d offset mode => transferText cc n d offset mode
  | blockTransfer n list statusBit mode =>
    (if mode.load then "ldm" else "stm") ++ cc ++ mode.suffix ++ " " ++ n.name
      ++ (if mode.writeback then "!" else "") ++ ","
      ++ String.join ((Register.ofSet list).map (" " ++ ·.name))
      ++ if statusBit then " ^" else ""
  | swap n d m byte =>
    line ("swp" ++ cc ++ if byte then "b" else "") [d.name, m.name, "[" ++ n.name ++ "]"]
  | readCoprocessor c => coprocessorText "mrc" cc c
  | writeCoprocessor c => coprocessorText "mcr" cc c
  | preload => "pld"

/-- How a word reads in a listing. -/
def listing (inst : UInt32) : String :=
  (decode true inst).text inst (conditionSuffix (condition inst))

end Arm
end Handheld
