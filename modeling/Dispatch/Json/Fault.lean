import Dispatch.Binary64.Decimal
import Dispatch.Text.Blank
import Dispatch.Text.Quoted
import Dispatch.Text.Utf8

/-!
# What can be wrong with a message

A message is refused either because its text is no JSON (`Flaw`; `FlawAt` adds the place) or
because a value does not fit the type that is read from it (`Mismatch`). `Fault.category` tells
the three classes apart that a sender cares about; `Fault.message` is the wording.
-/

set_option autoImplicit false

namespace Dispatch.Json

/-- Why a text is no JSON. -/
inductive Flaw where
  | endInList
  | endInObject
  | endInString
  | endInValue
  | expectedColon
  | expectedListCommaOrEnd
  | expectedObjectCommaOrEnd
  | expectedIdent
  | expectedValue
  | invalidEscape
  | invalidNumber
  | numberOutOfRange
  | invalidCodePoint
  | controlCharacter
  | keyNotString
  | loneSurrogate
  | trailingComma
  | trailingCharacters
  | endOfHexEscape
  | nestingTooDeep
deriving DecidableEq, Repr

def Flaw.message : Flaw → String
  | .endInList => "EOF while parsing a list"
  | .endInObject => "EOF while parsing an object"
  | .endInString => "EOF while parsing a string"
  | .endInValue => "EOF while parsing a value"
  | .expectedColon => "expected `:`"
  | .expectedListCommaOrEnd => "expected `,` or `]`"
  | .expectedObjectCommaOrEnd => "expected `,` or `\x7d`"
  | .expectedIdent => "expected ident"
  | .expectedValue => "expected value"
  | .invalidEscape => "invalid escape"
  | .invalidNumber => "invalid number"
  | .numberOutOfRange => "number out of range"
  | .invalidCodePoint => "invalid unicode code point"
  | .controlCharacter => "control character (\\u0000-\\u001F) found while parsing a string"
  | .keyNotString => "key must be a string"
  | .loneSurrogate => "lone leading surrogate in hex escape"
  | .trailingComma => "trailing comma"
  | .trailingCharacters => "trailing characters"
  | .endOfHexEscape => "unexpected end of hex escape"
  | .nestingTooDeep => "recursion limit exceeded"

/-- Whether the text merely ended too early. -/
def Flaw.isEnd : Flaw → Bool
  | .endInList | .endInObject | .endInString | .endInValue => true
  | _ => false

/-- A flaw and where it is: how many bytes of the text lie behind it. -/
structure FlawAt where
  flaw : Flaw
  left : Nat
deriving DecidableEq, Repr

/-- What was found in place of the wanted value. -/
inductive Found where
  | null
  | bool (value : Bool)
  | integer (value : Int)
  | float (value : Binary64)
  | string (value : String)
  | sequence
  | map
deriving DecidableEq, Repr

/-- Floats are named in the notation of the format that holds them. -/
def Found.text (floats : FloatStyle) : Found → String
  | .null => "null"
  | .bool b => "boolean `" ++ (if b then "true" else "false") ++ "`"
  | .integer n => "integer `" ++ toString n ++ "`"
  | .float x => "floating point `" ++ floats.text x ++ "`"
  | .string s => "string " ++ quoted s
  | .sequence => "sequence"
  | .map => "map"

/-- Why a well-formed value does not fit the wanted type. -/
inductive Mismatch where
  | invalidType (found : Found) (expected : String)
  | invalidValue (found : Found) (expected : String)
  | invalidLength (length : Nat) (expected : String)
  | unknownVariant (name : String) (known : List String)
  | missingField (name : String)
  | duplicateField (name : String)
  | invalidDuration (text : String)
deriving DecidableEq, Repr

/-- Names in backticks: one alone, two joined by `or`, more as a list. -/
def oneOf : List String → String
  | [] => "there are no variants"
  | [a] => "expected `" ++ a ++ "`"
  | [a, b] => "expected `" ++ a ++ "` or `" ++ b ++ "`"
  | names => "expected one of " ++ ", ".intercalate (names.map fun n => "`" ++ n ++ "`")

def Mismatch.message (floats : FloatStyle) : Mismatch → String
  | .invalidType found expected => "invalid type: " ++ found.text floats ++ ", expected " ++ expected
  | .invalidValue found expected =>
    "invalid value: " ++ found.text floats ++ ", expected " ++ expected
  | .invalidLength n expected => "invalid length " ++ toString n ++ ", expected " ++ expected
  | .unknownVariant name known => "unknown variant `" ++ name ++ "`, " ++ oneOf known
  | .missingField name => "missing field `" ++ name ++ "`"
  | .duplicateField name => "duplicate field `" ++ name ++ "`"
  | .invalidDuration text => "invalid duration: " ++ text

/-- Why a message is refused. -/
inductive Fault where
  | malformed (flaw : Flaw)
  | mismatch (cause : Mismatch)
deriving DecidableEq, Repr

/-- The classes of faults. -/
inductive Category where
  | malformed
  | truncated
  | data
deriving DecidableEq, Repr

def Fault.category : Fault → Category
  | .malformed f => if f.isEnd then .truncated else .malformed
  | .mismatch _ => .data

/-- Floats in JSON: scientific below a hundred-thousandth and from ten to the sixteenth on, always
with a point or an exponent; what is no number is `null`. -/
def floatStyle : FloatStyle :=
  ⟨fun lead => -5 ≤ lead && lead ≤ 15, true, "e+", "null", "null"⟩

/-- What stands before the digits of a 64-bit number, if the text ends with them. -/
def dropNumber? (cs : List Char) : Option (List Char) :=
  let digits := (cs.reverse.takeWhile fun c => (Numeral.digit? c).isSome).reverse
  match digits, Numeral.readDigits Numeral.maxWord64 0 digits with
  | _ :: _, .ok _ => some (cs.take (cs.length - digits.length))
  | _, _ => none

/-- What stands before a place, if the text ends with one. -/
def dropPlace? (cs : List Char) : Option (List Char) := do
  let cs ← dropNumber? cs
  let cs ← stripSuffix? " column ".toList cs
  let cs ← dropNumber? cs
  stripSuffix? " at line ".toList cs

/-- The wording without the place; where a mismatch is worded after the text that was read, an
end of that text that looks like a place is taken for it. -/
def Fault.message : Fault → String
  | .malformed f => f.message
  | .mismatch m =>
    let wording := m.message floatStyle
    match dropPlace? wording.toList with
    | some cs => String.ofList cs
    | none => wording

/-- Line and column of the place with `left` bytes behind it; columns count bytes, and a line
break ends its line. -/
def position (text : Bytes) (left : Nat) : Nat × Nat :=
  let before := text.take (text.length - left)
  (before.count 0x0A + 1, (before.reverse.takeWhile (· != 0x0A)).length)

/-- The wording with the place, as a reader of the text wants it. -/
def FlawAt.messageIn (text : Bytes) (f : FlawAt) : String :=
  let (line, column) := position text f.left
  f.flaw.message ++ " at line " ++ toString line ++ " column " ++ toString column

end Dispatch.Json
