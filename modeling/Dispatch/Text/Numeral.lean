/-!
# Numerals

Unsigned decimal numerals as every text format of the library writes and reads them: ASCII digits,
an optional plus sign when read, and a largest value that the reader enforces digit by digit, so
that the first of two faults wins.
-/

set_option autoImplicit false

namespace Dispatch.Numeral

/-- Why a text is no numeral of the wanted range. -/
inductive Fault where
  | empty
  | invalidDigit
  | tooLarge
deriving DecidableEq, Repr

def Fault.message : Fault → String
  | .empty => "cannot parse integer from empty string"
  | .invalidDigit => "invalid digit found in string"
  | .tooLarge => "number too large to fit in target type"

/-- The value of an ASCII digit. -/
def digit? (c : Char) : Option Nat :=
  if '0' ≤ c && c ≤ '9' then some (c.toNat - '0'.toNat) else none

/-- Digits most significant first, added to the value read so far. -/
def readDigits (largest : Nat) : Nat → List Char → Except Fault Nat
  | value, [] => .ok value
  | value, c :: rest =>
    match digit? c with
    | none => .error .invalidDigit
    | some d =>
      if value * 10 + d ≤ largest then readDigits largest (value * 10 + d) rest
      else .error .tooLarge

/-- A numeral of at most `largest`; a plus sign may stand in front of its digits. -/
def read (largest : Nat) : List Char → Except Fault Nat
  | [] => .error .empty
  | ['+'] => .error .invalidDigit
  | '+' :: rest => readDigits largest 0 rest
  | cs => readDigits largest 0 cs

/-- The largest value of a 64-bit word. -/
def maxWord64 : Nat := 18_446_744_073_709_551_615

/-- The largest value of a 32-bit word. -/
def maxWord32 : Nat := 4_294_967_295

/-- The digits of a number, most significant first. -/
def write (n : Nat) : List Char := Nat.toDigits 10 n

/-- The digits of a number as a string. -/
def text (n : Nat) : String := String.ofList (write n)

end Dispatch.Numeral
