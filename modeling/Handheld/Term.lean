/-!
# Written terms

The written form of a structured value: its name alone, its name before its parts in
parentheses, or its name before its labelled parts in braces.
-/

namespace Handheld.Term

/-- `Name(a, b)`; without a name a plain tuple. -/
def application (name : String) (parts : List String) : String :=
  name ++ "(" ++ ", ".intercalate parts ++ ")"

/-- The name, and in braces each part behind its label and a colon. -/
def record (name : String) (parts : List (String × String)) : String :=
  let labelled := parts.map fun (label, part) => label ++ ": " ++ part
  name ++ " \x7b " ++ ", ".intercalate labelled ++ " \x7d"

/-- A truth value. -/
def truth (b : Bool) : String := if b then "true" else "false"

/-- A number in decimal digits. -/
def natural (n : Nat) : String := toString n

/-- A signed number in decimal digits. -/
def integer : Int → String
  | .ofNat n => toString n
  | .negSucc n => "-" ++ toString (n + 1)

end Handheld.Term
