import Dispatch.Toml.Text

/-!
# Numbers, dates and times in TOML

Numbers may have single underscores between digits. Integers fit a signed 64-bit word; floats are
the nearest binary64 number, and one that is too large to be finite is refused. Dates and times
are recognised with the ranges of their parts.
-/

set_option autoImplicit false

namespace Dispatch.Toml

/-- The rest of a run of digits with single underscores between them. -/
def moreDigits (digit? : Char → Option Nat) : List Char → Option (List Nat × List Char)
  | [] => some ([], [])
  | c :: rest =>
    match digit? c with
    | some d => (moreDigits digit? rest).map fun (ds, rest) => (d :: ds, rest)
    | none =>
      if c = '_' then
        match rest with
        | [] => none
        | c :: _ => if (digit? c).isSome then moreDigits digit? rest else none
      else some ([], c :: rest)

/-- A run of digits, at least one. -/
def readDigits (digit? : Char → Option Nat) (text : List Char) : Option (List Nat × List Char) :=
  match text with
  | [] => none
  | c :: _ => if (digit? c).isSome then moreDigits digit? text else none

/-- The number that digits stand for. -/
def ofDigits (base : Nat) (digits : List Nat) : Nat := digits.foldl (fun n d => n * base + d) 0

/-- A digit of a base up to sixteen. -/
def digitOf? (base : Nat) (c : Char) : Option Nat := (hexDigit? c).filter (· < base)

/-- A sign, if there is one: whether it is a minus. -/
def readSign : List Char → Bool × List Char
  | '-' :: rest => (true, rest)
  | '+' :: rest => (false, rest)
  | text => (false, text)

/-- The whole part of a number; a zero stands alone. -/
def readWhole (text : List Char) : Option (List Nat × List Char) :=
  match text with
  | '0' :: rest => some ([0], rest)
  | _ => readDigits (digitOf? 10) text

/-- An integer of the signed 64-bit range. -/
def integer? (n : Int) : Option Value :=
  if -9_223_372_036_854_775_808 ≤ n ∧ n < 9_223_372_036_854_775_808 then some (.integer n) else none

/-- A float; an overflow to positive infinity is refused. -/
def float? (negative : Bool) (digits : Nat) (exponent : Int) : Option Value :=
  match Binary64.ofDecimal negative digits exponent with
  | .infinite false => none
  | x => some (.float x)

/-- The exponent part, from behind its letter. -/
def readExponent (text : List Char) : Option (Int × List Char) := do
  let (down, rest) := readSign text
  let (digits, rest) ← readDigits (digitOf? 10) rest
  let n : Int := ofDigits 10 digits
  return (if down then -n else n, rest)

def isExponentMark (c : Char) : Bool := c = 'e' || c = 'E'

/-- A decimal number from behind its sign and whole part. -/
def readBehindWhole (negative : Bool) (whole : List Nat) (text : List Char) :
    Option (Value × List Char) :=
  match text with
  | [] => (integer? (signed negative whole)).map (·, [])
  | c :: rest =>
    if c = '.' then do
      let (fraction, rest) ← readDigits (digitOf? 10) rest
      let digits := ofDigits 10 (whole ++ fraction)
      let (exponent, rest) ←
        match rest with
        | [] => some (0, [])
        | c :: behind => if isExponentMark c then readExponent behind else some (0, rest)
      let v ← float? negative digits (exponent - fraction.length)
      return (v, rest)
    else if isExponentMark c then do
      let (exponent, rest) ← readExponent rest
      let v ← float? negative (ofDigits 10 whole) exponent
      return (v, rest)
    else (integer? (signed negative whole)).map (·, text)
where
  signed (negative : Bool) (whole : List Nat) : Int :=
    if negative then -(ofDigits 10 whole : Int) else ofDigits 10 whole

/-- An integer of another base, from behind its mark. -/
def readBased (base : Nat) (text : List Char) : Option (Value × List Char) := do
  let (digits, rest) ← readDigits (digitOf? base) text
  let v ← integer? (ofDigits base digits)
  return (v, rest)

/-- A number, infinity or no number. -/
def readNumber (text : List Char) : Option (Value × List Char) :=
  match text with
  | '0' :: 'x' :: rest => readBased 16 rest
  | '0' :: 'o' :: rest => readBased 8 rest
  | '0' :: 'b' :: rest => readBased 2 rest
  | _ =>
    let (negative, rest) := readSign text
    match rest with
    | 'i' :: 'n' :: 'f' :: rest => some (.float (.infinite negative), rest)
    | 'n' :: 'a' :: 'n' :: rest => some (.float .nan, rest)
    | _ => do
      let (whole, rest) ← readWhole rest
      readBehindWhole negative whole rest

/-! ## Dates and times -/

/-- A number of exactly `count` digits between two bounds. -/
def readField (count low high : Nat) (text : List Char) : Option (List Char) := do
  let digits ← (text.take count).mapM (digitOf? 10)
  let n := ofDigits 10 digits
  if digits.length = count ∧ low ≤ n ∧ n ≤ high then return text.drop count else none

/-- One of some characters. -/
def readMark (marks : List Char) : List Char → Option (List Char)
  | c :: rest => if marks.contains c then some rest else none
  | [] => none

/-- How many days a month has. -/
def daysIn (year month : Nat) : Nat :=
  if month = 2 then
    if year % 4 = 0 ∧ (year % 100 ≠ 0 ∨ year % 400 = 0) then 29 else 28
  else if month = 4 ∨ month = 6 ∨ month = 9 ∨ month = 11 then 30
  else 31

/-- The number of a text's first digits. -/
def leadingNumber (count : Nat) (text : List Char) : Nat :=
  ofDigits 10 ((text.take count).filterMap (digitOf? 10))

/-- Year, month and day. -/
def readDate (text : List Char) : Option (List Char) := do
  let behindYear ← readField 4 0 9999 text >>= readMark ['-']
  let behindMonth ← readField 2 1 12 behindYear >>= readMark ['-']
  readField 2 1 (daysIn (leadingNumber 4 text) (leadingNumber 2 behindYear)) behindMonth

/-- Parts of a second. -/
def readFraction (text : List Char) : Option (List Char) :=
  match text with
  | '.' :: c :: rest =>
    if (digitOf? 10 c).isSome then some (rest.dropWhile fun c => (digitOf? 10 c).isSome) else none
  | '.' :: [] => none
  | _ => some text

/-- Minutes and seconds, from behind the hour. -/
def readBehindHour (text : List Char) : Option (List Char) :=
  readField 2 0 59 text >>= readMark [':'] >>= readField 2 0 60 >>= readFraction

/-- An hour and its colon. -/
def readHour (text : List Char) : Option (List Char) := readField 2 0 23 text >>= readMark [':']

/-- A difference from universal time, if there is one. -/
def readOffset (text : List Char) : Option (List Char) :=
  match readMark ['Z', 'z'] text with
  | some rest => some rest
  | none =>
    match readMark ['+', '-'] text with
    | some rest => readHour rest >>= readField 2 0 59
    | none => some text

/-- The time of day behind a date, if there is one. -/
def readBehindDate (text : List Char) : Option (List Char) :=
  match readMark ['T', 't', ' '] text >>= readHour with
  | some rest => readBehindHour rest >>= readOffset
  | none => some text

/-- A text that starts like a date or a time, which it then must be. -/
def startsDate (text : List Char) : Bool := (readField 4 0 9999 text >>= readMark ['-']).isSome

/-- A date, a time or both. -/
def readDateTime (text : List Char) : Option (List Char) :=
  if startsDate text then readDate text >>= readBehindDate
  else readHour text >>= readBehindHour

/-- A number, a date or a time. -/
def readNumeral (text : List Char) : Option (Value × List Char) :=
  if startsDate text || (readHour text).isSome then do
    let rest ← readDateTime text
    return (.dateTime (String.ofList (text.take (text.length - rest.length))), rest)
  else readNumber text

end Dispatch.Toml
