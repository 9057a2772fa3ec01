import Dispatch.Json.Fault

/-!
# JSON values

`Value` keeps the members of an object in the order of the text, duplicates included.
`Value.canonical` is the form in which free-form values are held: members sorted by the bytes of
their names, the last of several with one name standing for all. `Value.print` writes compact
text.
-/

set_option autoImplicit false

namespace Dispatch.Json

/-- A number: integers of the 64-bit range, signed or not, are exact; all others are binary64. -/
inductive Number where
  | integer (value : Int)
  | float (value : Binary64)
deriving DecidableEq, Repr, Inhabited

/-- A JSON value. -/
inductive Value where
  | null
  | bool (value : Bool)
  | number (value : Number)
  | string (value : String)
  | array (items : List Value)
  | object (members : List (String × Value))
deriving Repr, Inhabited

/-- ASCII text as bytes. -/
def ascii (s : String) : Bytes := s.toList.map fun c => c.toNat.toUInt8

/-- A hexadecimal digit in lower case. -/
def hexDigit (n : Nat) : UInt8 := if n < 10 then (0x30 + n).toUInt8 else (0x57 + n).toUInt8

/-- A byte inside quotes: the quote, the backslash and the control characters are escaped, all
else stands for itself. -/
def escapeByte (b : UInt8) : Bytes :=
  if b = 0x22 then [0x5C, 0x22]
  else if b = 0x5C then [0x5C, 0x5C]
  else if b = 0x08 then [0x5C, 0x62]
  else if b = 0x0C then [0x5C, 0x66]
  else if b = 0x0A then [0x5C, 0x6E]
  else if b = 0x0D then [0x5C, 0x72]
  else if b = 0x09 then [0x5C, 0x74]
  else if b < 0x20 then
    [0x5C, 0x75, 0x30, 0x30, hexDigit (b.toNat / 16), hexDigit (b.toNat % 16)]
  else [b]

/-- A string in quotes. -/
def printString (s : String) : Bytes := 0x22 :: ((Utf8.ofString s).flatMap escapeByte ++ [0x22])

/-- Digits of an integer. -/
def printInt (n : Int) : Bytes :=
  (if n < 0 then [0x2D] else []) ++ (Numeral.write n.natAbs).map fun c => c.toNat.toUInt8

/-- A float is always told from an integer by its point or exponent; infinities and `nan` have no
JSON form and are written as `null`. -/
def printFloat : Binary64 → Bytes
  | .finite s m e => (floatStyle.write (.finite s m e)).map fun c => c.toNat.toUInt8
  | _ => ascii "null"

def Number.print : Number → Bytes
  | .integer n => printInt n
  | .float x => printFloat x

/-- Parts with a comma between each two. -/
def commaSeparated : List Bytes → Bytes
  | [] => []
  | [a] => a
  | a :: b :: rest => a ++ 0x2C :: commaSeparated (b :: rest)

/-- A member of an object, given the text of its value. -/
def printMember (name : String) (value : Bytes) : Bytes := printString name ++ 0x3A :: value

/-- The items of an array in brackets. -/
def bracketed (items : List Bytes) : Bytes := 0x5B :: (commaSeparated items ++ [0x5D])

/-- The members of an object in braces. -/
def braced (members : List Bytes) : Bytes := 0x7B :: (commaSeparated members ++ [0x7D])

mutual

/-- Compact text of a value. -/
def Value.print : Value → Bytes
  | .null => ascii "null"
  | .bool b => ascii (if b then "true" else "false")
  | .number n => n.print
  | .string s => printString s
  | .array items => bracketed (printItems items)
  | .object members => braced (printMembers members)

def printItems : List Value → List Bytes
  | [] => []
  | v :: rest => v.print :: printItems rest

def printMembers : List (String × Value) → List Bytes
  | [] => []
  | (name, v) :: rest => printMember name v.print :: printMembers rest

end

/-- Byte order of names: a name comes before another if it is a proper beginning of it or has the
lesser byte where they first differ. -/
def bytesLt : Bytes → Bytes → Bool
  | [], [] => false
  | [], _ :: _ => true
  | _ :: _, [] => false
  | a :: as, b :: bs => if a = b then bytesLt as bs else a < b

/-- Puts a member into its place among sorted members; a member of the same name is replaced. -/
def insertMember (name : String) (v : Value) : List (String × Value) → List (String × Value)
  | [] => [(name, v)]
  | (n, w) :: rest =>
    if n = name then (name, v) :: rest
    else if bytesLt (Utf8.ofString name) (Utf8.ofString n) then (name, v) :: (n, w) :: rest
    else (n, w) :: insertMember name v rest

/-- Sorted members, the last of each name. -/
def sortMembers (members : List (String × Value)) : List (String × Value) :=
  members.foldl (fun sorted m => insertMember m.1 m.2 sorted) []

mutual

/-- The form of a free-form value: every object has sorted members, one of each name. -/
def Value.canonical : Value → Value
  | .array items => .array (canonicalItems items)
  | .object members => .object (sortMembers (canonicalMembers members))
  | v => v

def canonicalItems : List Value → List Value
  | [] => []
  | v :: rest => v.canonical :: canonicalItems rest

def canonicalMembers : List (String × Value) → List (String × Value)
  | [] => []
  | (name, v) :: rest => (name, v.canonical) :: canonicalMembers rest

end

/-- The member of an object with a name. -/
def Value.get? (name : String) : Value → Option Value
  | .object members => (members.find? (·.1 = name)).map (·.2)
  | _ => none

/-- An integer that is not negative. -/
def Value.natural? : Value → Option Nat
  | .number (.integer n) => if 0 ≤ n then some n.toNat else none
  | _ => none

/-- An integer as a value. -/
def Value.ofNat (n : Nat) : Value := .number (.integer n)

end Dispatch.Json
