import Dispatch.Json.Value

/-!
# Tokens

The text of a message as a list of tokens, each with the number of bytes from its first byte to
the end of the text. A string or number that cannot be taken as a value may still be passed over:
it carries the flaw that a strict reader meets. Where even a reader that only passes over the text
has to stop, the token is `broken` and the last one.
-/

set_option autoImplicit false

namespace Dispatch.Json

/-- The end of what can be read: the flaw that a strict reader meets, and the flaw that stops a
reader who only passes over the text. -/
structure Break where
  strict : FlawAt
  skipped : FlawAt
deriving DecidableEq, Repr

/-- One flaw for both kinds of reader. -/
def Break.both (flaw : Flaw) (left : Nat) : Break := ⟨⟨flaw, left⟩, ⟨flaw, left⟩⟩

/-- One token. -/
inductive Lexeme where
  | openBracket
  | closeBracket
  | openBrace
  | closeBrace
  | comma
  | colon
  | null
  | bool (value : Bool)
  | number (value : Except FlawAt Number)
  | string (value : Except FlawAt String)
  | broken (inString : Bool) (cause : Break)
  | stray

/-- A token and how many bytes of the text start with it. -/
structure Token where
  lexeme : Lexeme
  left : Nat

/-! ## Strings -/

/-- The value of a hexadecimal digit. -/
def hexValue? (b : UInt8) : Option Nat :=
  if 0x30 ≤ b && b ≤ 0x39 then some (b.toNat - 0x30)
  else if 0x61 ≤ b && b ≤ 0x66 then some (b.toNat - 0x57)
  else if 0x41 ≤ b && b ≤ 0x46 then some (b.toNat - 0x37)
  else none

/-- A 16-bit unit written with four hexadecimal digits. -/
def hexUnit? (a b c d : UInt8) : Option Nat := do
  let a ← hexValue? a
  let b ← hexValue? b
  let c ← hexValue? c
  let d ← hexValue? d
  return ((a * 16 + b) * 16 + c) * 16 + d

def isLeadingSurrogate (n : Nat) : Bool := 0xD800 ≤ n && n ≤ 0xDBFF
def isTrailingSurrogate (n : Nat) : Bool := 0xDC00 ≤ n && n ≤ 0xDFFF

/-- What a one-letter escape stands for. -/
def simpleEscape? (b : UInt8) : Option UInt8 :=
  if b = 0x22 then some 0x22
  else if b = 0x5C then some 0x5C
  else if b = 0x2F then some 0x2F
  else if b = 0x62 then some 0x08
  else if b = 0x66 then some 0x0C
  else if b = 0x6E then some 0x0A
  else if b = 0x72 then some 0x0D
  else if b = 0x74 then some 0x09
  else none

/-- The content of a string read so far, in reverse, unless it is already spoilt. -/
abbrev Content := Except FlawAt Bytes

def Content.push (bytes : Bytes) : Content → Content
  | .ok reversed => .ok (bytes.reverse ++ reversed)
  | .error f => .error f

/-- The first flaw stays. -/
def Content.spoil (f : FlawAt) : Content → Content
  | .ok _ => .error f
  | .error g => .error g

/-- A string that is not even passed over. -/
def Content.broken (content : Content) (flaw : Flaw) (left : Nat) : Lexeme × Bytes :=
  match content with
  | .ok _ => (.broken true (.both flaw left), [])
  | .error f => (.broken true ⟨f, flaw, left⟩, [])

/-- At the closing quote the content must be well-formed text. -/
def Content.close (content : Content) (rest : Bytes) : Lexeme × Bytes :=
  match content with
  | .error f => (.string (.error f), rest)
  | .ok reversed =>
    let bytes := reversed.reverse
    match Utf8.toString? bytes with
    | some s => (.string (.ok s), rest)
    | none =>
      let behind := bytes.length - Utf8.validLength bytes
      (.string (.error ⟨.invalidCodePoint, rest.length + behind⟩), rest)

/-- The second half of a surrogate pair must follow the first at once. -/
def Content.unpaired (content : Content) (pending : Option Nat) (rest : Bytes) : Content :=
  if pending.isSome then content.spoil ⟨.endOfHexEscape, rest.length⟩ else content

/-- A unit written as an escape, with the first half of a pair that may wait for it; gives the
content and what waits now. -/
def Content.pushUnit (content : Content) (pending : Option Nat) (unit : Nat) (rest : Bytes) :
    Content × Option Nat :=
  match pending with
  | some lead =>
    if isTrailingSurrogate unit then
      let point := (lead - 0xD800) * 0x400 + (unit - 0xDC00) + 0x10000
      (content.push (Utf8.encodeChar (Char.ofNat point)), none)
    else (content.spoil ⟨.loneSurrogate, rest.length⟩, none)
  | none =>
    if isTrailingSurrogate unit then (content.spoil ⟨.loneSurrogate, rest.length⟩, none)
    else if isLeadingSurrogate unit then (content, some unit)
    else (content.push (Utf8.encodeChar (Char.ofNat unit)), none)

/-- Scans a string from behind its opening quote; `pending` is the first half of a surrogate
pair. -/
def scanString (content : Content) (pending : Option Nat) : Bytes → Lexeme × Bytes
  | [] => content.broken .endInString 0
  | b :: rest =>
    if b = 0x22 then (content.unpaired pending rest).close rest
    else if b = 0x5C then
      match rest with
      | [] => content.broken .endInString 0
      | e :: rest =>
        if e = 0x75 then
          match rest with
          | h₁ :: h₂ :: h₃ :: h₄ :: rest =>
            match hexUnit? h₁ h₂ h₃ h₄ with
            | none => content.broken .invalidEscape rest.length
            | some unit =>
              let (content, pending) := content.pushUnit pending unit rest
              scanString content pending rest
          | _ => content.broken .endInString 0
        else
          let content := content.unpaired pending rest
          match simpleEscape? e with
          | some b => scanString (content.push [b]) none rest
          | none => content.broken .invalidEscape rest.length
    else
      let content := content.unpaired pending rest
      if b < 0x20 then content.broken .controlCharacter rest.length
      else scanString (content.push [b]) none rest

/-! ## Numbers -/

/-- An ASCII digit. -/
def isDigit (b : UInt8) : Bool := 0x30 ≤ b && b ≤ 0x39

def digitValue (b : UInt8) : Nat := b.toNat - 0x30

/-- Leading digits and what follows them. -/
def spanDigits (text : Bytes) : List Nat × Bytes :=
  ((text.takeWhile isDigit).map digitValue, text.dropWhile isDigit)

/-- A number's leading digits as far as they fit a 64-bit word, scaled by a power of ten. -/
structure Significand where
  value : Nat
  exponent : Int
  full : Bool
deriving DecidableEq, Repr

/-- A digit that no longer fits is dropped, and so is every later one of the same part. -/
def Significand.pushWhole (s : Significand) (d : Nat) : Significand :=
  if s.full then { s with exponent := s.exponent + 1 }
  else if s.value * 10 + d ≤ Numeral.maxWord64 then { s with value := s.value * 10 + d }
  else { s with exponent := s.exponent + 1, full := true }

/-- Digits behind the point scale the number down as long as they fit. -/
def Significand.pushFraction (s : Significand) (d : Nat) : Significand :=
  if s.full then s
  else if s.value * 10 + d ≤ Numeral.maxWord64 then
    { s with value := s.value * 10 + d, exponent := s.exponent - 1 }
  else { s with full := true }

def Significand.ofDigits (whole fraction : List Nat) : Significand :=
  let s := whole.foldl Significand.pushWhole ⟨0, 0, false⟩
  fraction.foldl Significand.pushFraction { s with full := false }

/-- The greatest power of ten that is a finite number. -/
def greatestPower : Nat := 308

/-- Brings a number down by a power of ten, `greatestPower` at a time; zero stays zero. -/
def scaleBelow : Nat → Nat → Binary64 → Binary64
  | 0, _, x => x
  | steps + 1, power, x =>
    if power ≤ greatestPower then x.div (.ofDecimal false 1 power)
    else if x.isZero then x
    else scaleBelow steps (power - greatestPower) (x.div (.ofDecimal false 1 greatestPower))

/-- The significand rounded, then brought to its power of ten by one rounded product or quotient;
`none` past the greatest finite number. -/
def scaleFloat? (value : Nat) (exponent : Int) : Option Binary64 :=
  let x := Binary64.ofNat value
  if exponent < 0 then some (scaleBelow (exponent.natAbs / greatestPower + 1) exponent.natAbs x)
  else if exponent ≤ greatestPower then
    match x.mul (.ofDecimal false 1 exponent) with
    | .infinite _ => none
    | y => some y
  else if x.isZero then some x
  else none

def withSign (negative : Bool) (x : Binary64) : Binary64 := if negative then x.neg else x

/-- A number without fraction and exponent is an integer if it fits 64 bits; minus zero is not. -/
def wholeNumber (negative : Bool) (s : Significand) (left : Nat) : Except FlawAt Number :=
  if s.full then
    match scaleFloat? s.value s.exponent with
    | some x => .ok (.float (withSign negative x))
    | none => .error ⟨.numberOutOfRange, left⟩
  else if !negative then .ok (.integer s.value)
  else if s.value = 0 ∨ 9_223_372_036_854_775_808 < s.value then
    .ok (.float (Binary64.ofNat s.value).neg)
  else .ok (.integer (-(s.value : Int)))

/-- A number with a fraction or an exponent is a float. -/
def floatNumber (negative : Bool) (value : Nat) (exponent : Int) (left : Nat) :
    Except FlawAt Number :=
  match scaleFloat? value exponent with
  | some x => .ok (.float (withSign negative x))
  | none => .error ⟨.numberOutOfRange, left⟩

/-- Exponents are read up to the greatest signed 32-bit number. -/
def greatestExponent : Nat := 2_147_483_647

/-- The value of the exponent's digits, or where they leave the range: how many digits are left
there. -/
def exponentValue : Nat → List Nat → Except Nat Nat
  | value, [] => .ok value
  | value, d :: rest =>
    if value * 10 + d ≤ greatestExponent then exponentValue (value * 10 + d) rest
    else .error rest.length

/-- No number stands here: at the end of the text a strict reader says so. -/
def noNumber (strict : Flaw) (left : Nat) : Lexeme × Bytes :=
  (.broken false ⟨⟨strict, left⟩, .invalidNumber, left⟩, [])

/-- From behind the exponent's letter. -/
def scanExponent (negative : Bool) (s : Significand) (text : Bytes) : Lexeme × Bytes :=
  let (down, text) :=
    match text with
    | [] => (false, [])
    | b :: rest => if b = 0x2B then (false, rest) else if b = 0x2D then (true, rest) else (false, text)
  match text with
  | [] => noNumber .endInValue 0
  | b :: rest =>
    if isDigit b then
      let (digits, behind) := spanDigits (b :: rest)
      match exponentValue 0 digits with
      | .ok n =>
        let exponent := s.exponent + (if down then -(n : Int) else n)
        (.number (floatNumber negative s.value exponent behind.length), behind)
      | .error digitsLeft =>
        if s.value ≠ 0 ∧ !down then
          (.number (.error ⟨.numberOutOfRange, behind.length + digitsLeft⟩), behind)
        else (.number (.ok (.float (.zero negative))), behind)
    else noNumber .invalidNumber rest.length

def isExponentMark (b : UInt8) : Bool := b = 0x65 || b = 0x45

/-- From behind the digits of the fraction. -/
def scanBehindFraction (negative : Bool) (s : Significand) : Bytes → Lexeme × Bytes
  | [] => (.number (floatNumber negative s.value s.exponent 0), [])
  | b :: rest =>
    if isExponentMark b then scanExponent negative s rest
    else (.number (floatNumber negative s.value s.exponent (b :: rest).length), b :: rest)

/-- From behind the point; at least one digit follows it. -/
def scanFraction (negative : Bool) (whole : List Nat) (text : Bytes) : Lexeme × Bytes :=
  match spanDigits text with
  | ([], []) => noNumber .endInValue 0
  | ([], _ :: rest) => noNumber .invalidNumber rest.length
  | (fraction, behind) => scanBehindFraction negative (.ofDigits whole fraction) behind

/-- From behind the whole part. -/
def scanBehindWhole (negative : Bool) (whole : List Nat) : Bytes → Lexeme × Bytes
  | [] => (.number (wholeNumber negative (whole.foldl Significand.pushWhole ⟨0, 0, false⟩) 0), [])
  | b :: rest =>
    if b = 0x2E then scanFraction negative whole rest
    else if isExponentMark b then scanExponent negative (.ofDigits whole []) rest
    else
      (.number (wholeNumber negative (whole.foldl Significand.pushWhole ⟨0, 0, false⟩)
        (b :: rest).length), b :: rest)

/-- Scans a number from its first digit on; a zero stands alone. -/
def scanNumber (negative : Bool) (text : Bytes) : Lexeme × Bytes :=
  match spanDigits text with
  | ([], []) => noNumber .endInValue 0
  | ([], _ :: rest) => noNumber .invalidNumber rest.length
  | (0 :: _ :: more, behind) => noNumber .invalidNumber (more.length + behind.length)
  | (whole, behind) => scanBehindWhole negative whole behind

/-! ## The text -/

/-- Compares the text with the rest of a word, letter by letter. -/
def scanWord (value : Lexeme) : Bytes → Bytes → Lexeme × Bytes
  | [], text => (value, text)
  | _ :: _, [] => (.broken false (.both .endInValue 0), [])
  | w :: word, b :: text =>
    if w = b then scanWord value word text else (.broken false (.both .expectedIdent text.length), [])

def isSpace (b : UInt8) : Bool := b = 0x20 || b = 0x0A || b = 0x09 || b = 0x0D

/-- The token that starts with byte `b`, and the text behind it. -/
def nextLexeme (b : UInt8) (rest : Bytes) : Lexeme × Bytes :=
  if b = 0x5B then (.openBracket, rest)
  else if b = 0x5D then (.closeBracket, rest)
  else if b = 0x7B then (.openBrace, rest)
  else if b = 0x7D then (.closeBrace, rest)
  else if b = 0x2C then (.comma, rest)
  else if b = 0x3A then (.colon, rest)
  else if b = 0x22 then scanString (.ok []) none rest
  else if b = 0x2D then scanNumber true rest
  else if isDigit b then scanNumber false (b :: rest)
  else if b = 0x6E then scanWord .null (ascii "ull") rest
  else if b = 0x74 then scanWord (.bool true) (ascii "rue") rest
  else if b = 0x66 then scanWord (.bool false) (ascii "alse") rest
  else (.stray, rest)

/-- At most `limit` tokens of a text. -/
def tokensUpTo : Nat → Bytes → List Token
  | 0, _ => []
  | _ + 1, [] => []
  | limit + 1, b :: rest =>
    if isSpace b then tokensUpTo limit rest
    else
      let (lexeme, behind) := nextLexeme b rest
      ⟨lexeme, rest.length + 1⟩ :: tokensUpTo limit behind

/-- The tokens of a text: no token is shorter than one byte. -/
def tokens (text : Bytes) : List Token := tokensUpTo text.length text

end Dispatch.Json
