import Dispatch.Toml.Value

/-!
# Writing TOML

A document of sections, each a header with keys below it and a blank line between two sections.
Only what the library writes has a form here: integers of the signed 64-bit range, floats, and
strings of characters that need no escape.
-/

set_option autoImplicit false

namespace Dispatch.Toml

/-- Floats in plain digits; a whole number keeps its point. -/
def floatStyle : FloatStyle := .pointed

/-- Floats as messages name them. -/
def messageFloats : FloatStyle := { FloatStyle.pointed with nan := "NaN" }

/-- A character that stands for itself in quotes. -/
def isPlain (c : Char) : Bool := 0x20 ≤ c.toNat && c.toNat ≤ 0x7E && c != '"' && c != '\\'

/-- The text of a value behind the equals sign, if it has one. -/
def writeValue? : Json.Value → Option (List Char)
  | .string s => if s.toList.all isPlain then some ('"' :: (s.toList ++ ['"'])) else none
  | .number (.integer n) =>
    if -9_223_372_036_854_775_808 ≤ n ∧ n < 9_223_372_036_854_775_808 then
      some ((if n < 0 then ['-'] else []) ++ Numeral.write n.natAbs)
    else none
  | .number (.float x) => some (floatStyle.write x)
  | .bool b => some (if b then "true".toList else "false".toList)
  | _ => none

/-- Lines of keys with their values. -/
def writeKeys? : List (String × Json.Value) → Option (List Char)
  | [] => some []
  | (key, v) :: rest => do
    let v ← writeValue? v
    let lines ← writeKeys? rest
    return key.toList ++ [' ', '=', ' '] ++ v ++ '\n' :: lines

/-- A header and the lines of its keys. -/
def writeSection? (name : String) : Json.Value → Option (List Char)
  | .object keys => (writeKeys? keys).map fun lines => '[' :: (name.toList ++ [']', '\n'] ++ lines)
  | _ => none

/-- Sections with a blank line between two of them. -/
def writeSections? : List (String × Json.Value) → Option (List Char)
  | [] => some []
  | [(name, v)] => writeSection? name v
  | (name, v) :: rest => do
    let first ← writeSection? name v
    let others ← writeSections? rest
    return first ++ '\n' :: others

/-- The document of an object whose members are its sections. -/
def write? : Json.Value → Option (List Char)
  | .object sections => writeSections? sections
  | _ => none

end Dispatch.Toml
