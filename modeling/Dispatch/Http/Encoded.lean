import Dispatch.Text.Numeral
import Dispatch.Text.Utf8

/-!
# Encoded text in addresses

Bytes may be written as a percent sign and two hexadecimal digits; in the query of an address a
plus sign is a blank. A percent sign without its digits stands for itself.
-/

set_option autoImplicit false

namespace Dispatch.Http

/-- The value of a hexadecimal digit. -/
def hexValue? (b : UInt8) : Option UInt8 :=
  if 0x30 ≤ b && b ≤ 0x39 then some (b - 0x30)
  else if 0x61 ≤ b && b ≤ 0x66 then some (b - 0x57)
  else if 0x41 ≤ b && b ≤ 0x46 then some (b - 0x37)
  else none

/-- The byte that two hexadecimal digits stand for. -/
def hexPair? (high low : UInt8) : Option UInt8 := do
  let high ← hexValue? high
  let low ← hexValue? low
  return high * 16 + low

/-- The byte that the digits at the head of a text stand for. -/
def leadingPair? : Bytes → Option UInt8
  | high :: low :: _ => hexPair? high low
  | _ => none

/-- Decodes what follows `skip` bytes that belong to the escape before them. -/
def percentDecodeFrom : (skip : Nat) → Bytes → Bytes
  | _, [] => []
  | skip + 1, _ :: rest => percentDecodeFrom skip rest
  | 0, b :: rest =>
    if b = 0x25 then
      match leadingPair? rest with
      | some decoded => decoded :: percentDecodeFrom 2 rest
      | none => b :: percentDecodeFrom 0 rest
    else b :: percentDecodeFrom 0 rest

/-- Replaces each percent sign and its digits by their byte. -/
def percentDecode (text : Bytes) : Bytes := percentDecodeFrom 0 text

/-- A name or value of a query. -/
def formDecode (text : Bytes) : String :=
  Utf8.toStringLossy (percentDecode (text.map fun b => if b = 0x2B then 0x20 else b))

/-- The parts of a text between two separators. -/
def splitOn (separator : UInt8) : Bytes → List Bytes
  | [] => [[]]
  | b :: rest =>
    if b = separator then [] :: splitOn separator rest
    else
      match splitOn separator rest with
      | [] => [[b]]
      | part :: parts => (b :: part) :: parts

/-- The text before the first separator, and the text behind it if there is one. -/
def splitFirst (separator : UInt8) : Bytes → Bytes × Option Bytes
  | [] => ([], none)
  | b :: rest =>
    if b = separator then ([], some rest)
    else
      let (before, behind) := splitFirst separator rest
      (b :: before, behind)

/-- The names and values of a query, in order; empty parts are skipped. -/
def queryPairs (query : Bytes) : List (String × String) :=
  ((splitOn 0x26 query).filter (!·.isEmpty)).map fun part =>
    let (name, value) := splitFirst 0x3D part
    (formDecode name, formDecode (value.getD []))

end Dispatch.Http
